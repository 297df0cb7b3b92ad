import ComponentDiagram.Proofs.Build.Links
import ComponentDiagram.Proofs.Build.Routing

/-! Connectors across a boundary. A connector with exactly one boundary between its ends is split in
two at a port of that boundary, and so is one that enters a container of its own level. All others
stay whole. -/
namespace ComponentDiagram

variable {α : Type}

namespace Build

/-- The boundary is the only one between the ends: the inner end lies in the component, the outer end
beside it. -/
structure Crossing.Separates (k : Crossing) (d : Diagram α) (c : Connector) : Prop where
  nested : (innerEnd c k).node = k.nested
  inside : d.parentOf (some k.nested) = some k.boundary
  beside : d.parentOf (some (outerEnd c k).node) = d.parentOf (some k.boundary)
  apart : (outerEnd c k).node ≠ k.boundary

/-- The two parts of a connector that is split at a port of a boundary. -/
structure IsSplit (d : Diagram α) (c : Connector) (k : Crossing)
    (external internal : Connector) : Prop where
  /-- The part outside is the connector itself, from its outer end to the port. -/
  kept : external.id = c.id ∧ external.kind = c.kind ∧ external.name = c.name ∧
    external.label = c.label ∧ external.interfaceName = c.interfaceName
  external_origin : external.origin = .crossLevel
  external_source : external.source = outerEnd c k
  /-- The part inside runs from the port to a child, with the roles of its ends exchanged. -/
  internal_id : internal.id = c.id ++ "-interface"
  internal_origin : internal.origin = .synthesized
  internal_kind : match c.kind with
    | .interface mark => ∃ turned, internal.kind = .interface turned ∧
        turned.sourceProvides = !mark.sourceProvides
    | _ => internal.kind = .delegate
  internal_target : internal.target = ⟨k.nested, none⟩
  port : ∃ p ∈ d.ports, p.owner = k.boundary ∧
    external.target = ⟨k.boundary, some p.id⟩ ∧ internal.source = ⟨k.boundary, some p.id⟩
  child : d.parentOf (some k.nested) = some k.boundary
  inner : (innerEnd c k).node = k.boundary ∨
    d.parentOf (some (innerEnd c k).node) = some k.boundary
  beside : d.parentOf (some (outerEnd c k).node) = d.parentOf (some k.boundary)
  /-- Only the inner end lies in or names the boundary, unless both ends name one node. -/
  outer : c.source.node ≠ c.target.node → (outerEnd c k).node ≠ k.boundary ∧
    d.parentOf (some (outerEnd c k).node) ≠ some k.boundary

/-- The connectors are the two parts, the inner one first if the inner end is the source. -/
def IsSplitAt (d : Diagram α) (c : Connector) (k : Crossing) (group : List Connector) : Prop :=
  ∃ external internal, IsSplit d c k external internal ∧
    group = if k.nestedIsSource then [internal, external] else [external, internal]

theorem IsSplit.mono {d e : Diagram α} {c : Connector} {k : Crossing}
    {external internal : Connector} (h : IsSplit e c k external internal)
    (hn : e.nodes = d.nodes) (hp : ∀ p ∈ e.ports, p ∈ d.ports) :
    IsSplit d c k external internal := by
  obtain ⟨p, hmem, hport⟩ := h.port
  refine { h with port := ⟨p, hp p hmem, hport⟩, child := ?_, inner := ?_, beside := ?_, outer := ?_ }
  all_goals simp only [← Diagram.parentOf_congr hn]
  · exact h.child
  · exact h.inner
  · exact h.beside
  · exact h.outer

/-! ## Routes -/

theorem opensContainer_some {d : Diagram α} {e : Endpoint} {n : FlatNode α} :
    opensContainer d e = some n ↔ d.node? e.node = some n ∧ n.childIds ≠ [] ∧
      ∃ port, e.port = some port ∧ d.port? e.node port = none := by
  rw [opensContainer]
  cases hp : e.port with
  | none => simp
  | some port =>
    cases hn : d.node? e.node with
    | none => simp
    | some m =>
      have hiff : (if (m.childIds.isEmpty || (d.port? e.node port).isSome) = true then none
          else some m) = some n ↔ m = n ∧ m.childIds ≠ [] ∧ d.port? e.node port = none := by
        cases hd : d.port? e.node port <;> by_cases hc : m.childIds = [] <;> simp [hc]
      simp only [Option.bind_eq_bind, Option.bind_some]
      refine hiff.trans ⟨?_, ?_⟩
      · rintro ⟨rfl, hc, hd⟩
        exact ⟨rfl, hc, port, rfl, hd⟩
      · rintro ⟨hm, hc, q, hq, hd⟩
        cases hm
        cases hq
        exact ⟨rfl, hc, hd⟩

theorem containerCrossing_some {d : Diagram α} {c : Connector} {k : Crossing}
    (h : containerCrossing d c = some k) : (innerEnd c k).node = k.boundary ∧
      ∃ n, d.node? k.boundary = some n ∧ k.nested ∈ n.childIds := by
  rw [containerCrossing] at h
  split at h
  · rename_i n hn
    obtain ⟨nested, hhead, rfl⟩ := Option.map_eq_some_iff.mp h
    exact ⟨rfl, n, (opensContainer_some.mp hn).1, List.mem_of_mem_head? hhead⟩
  · obtain ⟨n, hn, h⟩ := Option.bind_eq_some_iff.mp h
    obtain ⟨nested, hhead, rfl⟩ := Option.map_eq_some_iff.mp h
    exact ⟨rfl, n, (opensContainer_some.mp hn).1, List.mem_of_mem_head? hhead⟩

theorem boundaryOf_some {d : Diagram α} {parent otherParent : Option String} {other b : String} :
    boundaryOf d parent otherParent other = some b ↔
      parent = some b ∧ other ≠ b ∧ otherParent = d.parentOf (some b) := by
  cases parent with
  | none => simp [boundaryOf]
  | some p =>
    simp only [boundaryOf]
    split
    · rename_i h
      obtain ⟨hother, hparent⟩ := Bool.and_eq_true_iff.mp h
      rw [bne_iff_ne] at hother
      rw [beq_iff_eq] at hparent
      constructor
      · rintro ⟨⟩
        exact ⟨rfl, hother.symm, hparent.symm⟩
      · exact fun h => h.1
    · rename_i h
      constructor
      · rintro ⟨⟩
      · rintro ⟨⟨⟩, hother, hparent⟩
        exact absurd (Bool.and_eq_true_iff.mpr
          ⟨bne_iff_ne.mpr hother.symm, beq_iff_eq.mpr hparent.symm⟩) h

section

variable {d : Diagram α} {c : Connector} {k : Crossing}

theorem separates_source {b : String} : Crossing.Separates ⟨b, c.source.node, true⟩ d c ↔
    boundaryOf d (d.parentOf (some c.source.node)) (d.parentOf (some c.target.node))
      c.target.node = some b := by
  rw [boundaryOf_some]
  constructor
  · rintro ⟨-, hinside, hbeside, hapart⟩
    exact ⟨hinside, hapart, hbeside⟩
  · rintro ⟨hinside, hapart, hbeside⟩
    exact ⟨rfl, hinside, hbeside, hapart⟩

theorem separates_target {b : String} : Crossing.Separates ⟨b, c.target.node, false⟩ d c ↔
    boundaryOf d (d.parentOf (some c.target.node)) (d.parentOf (some c.source.node))
      c.source.node = some b := by
  rw [boundaryOf_some]
  constructor
  · rintro ⟨-, hinside, hbeside, hapart⟩
    exact ⟨hinside, hapart, hbeside⟩
  · rintro ⟨hinside, hapart, hbeside⟩
    exact ⟨rfl, hinside, hbeside, hapart⟩

/-- A connector that crosses a boundary ends at a container of its own level, or the boundary is the
only one between its ends. -/
theorem route_crossing (h : route d c = .crossing k) :
    (d.parentOf (some c.source.node) = d.parentOf (some c.target.node) ∧
      (innerEnd c k).node = k.boundary ∧
      ∃ n, d.node? k.boundary = some n ∧ k.nested ∈ n.childIds) ∨ k.Separates d c := by
  simp only [route] at h
  split at h
  · rename_i hlevel
    split at h
    · cases h
      exact .inl ⟨hlevel, containerCrossing_some ‹_›⟩
    · cases h
  · right
    split at h
    · cases h
      exact separates_source.mpr ‹_›
    · split at h
      · cases h
        exact separates_target.mpr ‹_›
      · cases h

theorem Crossing.Separates.congr {e : Diagram α} (h : k.Separates d c) (hn : d.nodes = e.nodes) :
    k.Separates e c := by
  obtain ⟨hnested, hinside, hbeside, hapart⟩ := h
  simp only [Diagram.parentOf_congr hn] at hinside hbeside
  exact ⟨hnested, hinside, hbeside, hapart⟩

namespace Crossing.Separates

variable (hk : k.Separates d c) (hd : d.IsLinked)
include hk hd

theorem level : d.level (innerEnd c k).node = d.level (outerEnd c k).node + 1 := by
  rw [hk.nested, hd.level_parent hk.inside, hd.level_congr hk.beside]

theorem levels : d.parentOf (some c.source.node) ≠ d.parentOf (some c.target.node) := by
  intro he
  have hsame := hd.level_congr he
  have hlevel := hk.level hd
  cases hs : k.nestedIsSource with
  | true =>
    simp only [innerEnd, outerEnd, hs, if_true] at hlevel
    omega
  | false =>
    simp only [innerEnd, outerEnd, hs, Bool.false_eq_true, if_false] at hlevel
    omega

end Crossing.Separates

/-- Where one boundary lies between the ends of a connector, it is crossed. -/
theorem route_separates (hd : d.IsLinked) (h : k.Separates d c) : route d c = .crossing k := by
  have hlevels := h.levels hd
  obtain ⟨b, nested, nestedIsSource⟩ := k
  cases nestedIsSource with
  | true =>
    obtain rfl : c.source.node = nested := h.nested
    simp only [route, if_neg hlevels, separates_source.mp h]
  | false =>
    obtain rfl : c.target.node = nested := h.nested
    -- the source would lie both one level above and one level below the target
    have hnone : boundaryOf d (d.parentOf (some c.source.node)) (d.parentOf (some c.target.node))
        c.target.node = none := by
      rw [Option.eq_none_iff_forall_ne_some]
      intro b' hb'
      have habove := h.level hd
      have hbelow := (separates_source.mpr hb').level hd
      simp only [innerEnd, outerEnd, Bool.false_eq_true, if_false, if_true] at habove hbelow
      omega
    simp only [route, if_neg hlevels, hnone, separates_target.mp h]

/-- Where a boundary that is crossed lies. -/
theorem crossing_place (hd : d.IsLinked) (h : route d c = .crossing k) :
    d.parentOf (some k.nested) = some k.boundary ∧
    ((innerEnd c k).node = k.boundary ∨
      d.parentOf (some (innerEnd c k).node) = some k.boundary) ∧
    d.parentOf (some (outerEnd c k).node) = d.parentOf (some k.boundary) ∧
    (c.source.node ≠ c.target.node → (outerEnd c k).node ≠ k.boundary) := by
  rcases route_crossing h with ⟨hlevel, hinner, n, hn, hnested⟩ | hk
  · refine ⟨(hd.parentOf_iff hn).mpr hnested, .inl hinner, ?_, fun hne => ?_⟩
    · rw [← hinner]
      cases hs : k.nestedIsSource <;> simp [innerEnd, outerEnd, hs, hlevel]
    · rw [← hinner]
      cases hs : k.nestedIsSource <;> simp [innerEnd, outerEnd, hs, hne, hne.symm]
  · exact ⟨hk.inside, .inr (hk.nested ▸ hk.inside), hk.beside, fun _ => hk.apart⟩

end

variable [Scalar α]

/-! ## Groups -/

theorem routeConnector_crossing {d : Diagram α} {c : Connector} {k : Crossing}
    (h : route d c = .crossing k) :
    (routeConnector d c).created = (crossingPort d c k).2 ∧
    (routeConnector d c).connectors =
      if k.nestedIsSource then
        [internalPart c k (crossingPort d c k).1, externalPart c k (crossingPort d c k).1]
      else [externalPart c k (crossingPort d c k).1, internalPart c k (crossingPort d c k).1] := by
  constructor <;> simp only [routeConnector, h]

theorem internalPart_kind (c : Connector) (k : Crossing) (port : String) : match c.kind with
    | .interface mark => ∃ turned, (internalPart c k port).kind = .interface turned ∧
        turned.sourceProvides = !mark.sourceProvides
    | _ => (internalPart c k port).kind = .delegate := by
  cases hkind : c.kind with
  | plain arrow => simp [internalPart, hkind]
  | delegate => simp [internalPart, hkind]
  | interface mark =>
    exact ⟨mark.inverted, by simp [internalPart, hkind], mark.sourceProvides_inverted⟩

/-- A connector that crosses a boundary is split at it. -/
theorem isSplitAt_crossing {d : Diagram α} (hd : d.IsLinked) {c : Connector} {k : Crossing}
    (h : route d c = .crossing k) :
    IsSplitAt (d.withPorts (routeConnector d c).created.toList) c k
      (routeConnector d c).connectors := by
  obtain ⟨hcreated, hgroup⟩ := routeConnector_crossing h
  obtain ⟨p, hp, -, howner, hid⟩ := passage_spec d c k
  obtain ⟨hchild, hinner, hbeside, houter⟩ := crossing_place hd h
  refine ⟨externalPart c k (crossingPort d c k).1, internalPart c k (crossingPort d c k).1, ?_,
    hgroup⟩
  exact
    { kept := ⟨rfl, rfl, rfl, rfl, rfl⟩
      external_origin := rfl
      external_source := rfl
      internal_id := rfl
      internal_origin := rfl
      internal_kind := internalPart_kind c k _
      internal_target := rfl
      port := ⟨p, hcreated ▸ hp, howner, by rw [hid]; rfl, by rw [hid]; rfl⟩
      child := hchild
      inner := hinner
      beside := hbeside
      outer := fun hne => ⟨houter hne, fun hinside => by
        have hlevel := hd.level_parent hinside
        have hsame := hd.level_congr hbeside
        omega⟩ }

theorem routeConnector_copy {d : Diagram α} {c : Connector} (h : ∀ k, route d c ≠ .crossing k) :
    (routeConnector d c).connectors = [c] := by
  cases hr : route d c with
  | straight => simp only [routeConnector, hr]
  | distant => simp only [routeConnector, hr]
  | crossing k => exact absurd hr (h k)

/-- What stands for a connector in a diagram: the connector itself, or its two parts. It is split
where one boundary lies between its ends, and stays whole where more than one does. -/
structure IsRouted (d : Diagram α) (c : Connector) (group : List Connector) : Prop where
  whole_or_split : group = [c] ∨ ∃ k, IsSplitAt d c k group
  separated : ∀ k : Crossing, k.Separates d c → IsSplitAt d c k group
  distant : d.parentOf (some c.source.node) ≠ d.parentOf (some c.target.node) →
    (∀ k : Crossing, ¬ k.Separates d c) → group = [c]

/-- What a connector becomes while a diagram is built still stands for it when all ports are there. -/
theorem isRouted_routeConnector {d e : Diagram α} (he : e.IsLinked) (hn : e.nodes = d.nodes)
    {c : Connector} (hp : ∀ p ∈ e.ports ++ (routeConnector e c).created.toList, p ∈ d.ports) :
    IsRouted d c (routeConnector e c).connectors := by
  have hsplit {k : Crossing} (hk : route e c = .crossing k) :
      IsSplitAt d c k (routeConnector e c).connectors := by
    obtain ⟨external, internal, hparts, hgroup⟩ := isSplitAt_crossing he hk
    exact ⟨external, internal, hparts.mono hn hp, hgroup⟩
  refine ⟨?_, fun k hk => hsplit (route_separates he (hk.congr hn.symm)), ?_⟩
  · by_cases hk : ∃ k, route e c = .crossing k
    · obtain ⟨k, hk⟩ := hk
      exact .inr ⟨k, hsplit hk⟩
    · exact .inl (routeConnector_copy fun k h => hk ⟨k, h⟩)
  · intro hlevels hnone
    refine routeConnector_copy fun k hk => ?_
    rw [← Diagram.parentOf_congr hn, ← Diagram.parentOf_congr hn] at hlevels
    rcases route_crossing hk with ⟨hlevel, -⟩ | hk
    · exact hlevels hlevel
    · exact hnone k (hk.congr hn)

/-- The connectors of a flat view are those that stand for each connector of the document, in the
order of the document. -/
theorem diagram_routed (doc : Document α) (h : (doc.components.map (·.id)).Nodup) :
    (diagram doc).connectors = (groups doc).flatten ∧
      List.Forall₂ (IsRouted (diagram doc)) doc.connectors (groups doc) := by
  refine ⟨diagram_connectors doc, ?_⟩
  rw [groups, List.forall₂_map_right_iff]
  refine forall₂_routeAll (diagram doc).ports (fun p hp => hp) fun e c hn hp => ?_
  exact isRouted_routeConnector (d := diagram doc) (isLinked_of_nodes h hn) hn hp

/-- A provider inside a component, and what requires its interface outside. -/
def nestedProvider : Document Rat :=
  { roots := [.node { id := "a" } [.node { id := "b" } []], .node { id := "c" } []],
    connectors := [{
      kind := .interface .provider, id := "e", source := ⟨"b", some "p"⟩, target := ⟨"c", none⟩ }] }

theorem diagram_routed_nestedProvider : (nestedProvider.components.map (·.id)).Nodup ∧
    (⟨"a", "b", true⟩ : Crossing).Separates (diagram nestedProvider) nestedProvider.connectors[0] ∧
    IsSplitAt (diagram nestedProvider) nestedProvider.connectors[0] ⟨"a", "b", true⟩
      (diagram nestedProvider).connectors := by
  have hdistinct : (nestedProvider.components.map (·.id)).Nodup := by decide
  have hbetween : (⟨"a", "b", true⟩ : Crossing).Separates (diagram nestedProvider)
      nestedProvider.connectors[0] := ⟨by decide, by decide, by decide, by decide⟩
  obtain ⟨hgroups, hrouted⟩ := diagram_routed nestedProvider hdistinct
  refine ⟨hdistinct, hbetween, ?_⟩
  obtain ⟨group, rest, hgroup, hrest, hall⟩ := List.forall₂_cons_left_iff.mp hrouted
  cases hrest
  rw [hgroups, hall, List.flatten_cons, List.flatten_nil, List.append_nil]
  exact hgroup.separated _ hbetween

end Build
end ComponentDiagram
