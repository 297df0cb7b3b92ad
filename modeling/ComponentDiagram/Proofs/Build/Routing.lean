import ComponentDiagram.Build.Route
import Mathlib

/-! The list of ports while connectors are routed. It only grows, by ports whose ids are new on their
components, so each connector is routed in the diagram that the connectors before it have built. -/
namespace ComponentDiagram

variable {α : Type}

namespace Diagram

/-- The diagram with more ports. -/
def withPorts (d : Diagram α) (ports : List (FlatPort α)) : Diagram α :=
  { d with ports := d.ports ++ ports }

@[simp] theorem withPorts_nil (d : Diagram α) : d.withPorts [] = d := by
  rw [withPorts, List.append_nil]

@[simp] theorem withPorts_withPorts (d : Diagram α) (ps qs : List (FlatPort α)) :
    (d.withPorts ps).withPorts qs = d.withPorts (ps ++ qs) := by
  simp [withPorts]

@[simp] theorem parentOf_withPorts (d : Diagram α) (ps : List (FlatPort α)) (id : Option String) :
    (d.withPorts ps).parentOf id = d.parentOf id := rfl

theorem port?_withPorts (d : Diagram α) (ps : List (FlatPort α)) (owner id : String) :
    (d.withPorts ps).port? owner id =
      (d.port? owner id).or (ps.find? fun p => p.owner == owner && p.id == id) :=
  List.find?_append

theorem port?_some {d : Diagram α} {owner id : String} {p : FlatPort α}
    (h : d.port? owner id = some p) : p ∈ d.ports ∧ p.owner = owner ∧ p.id = id := by
  have hp := List.find?_some h
  rw [Bool.and_eq_true, beq_iff_eq, beq_iff_eq] at hp
  exact ⟨List.mem_of_find?_eq_some h, hp⟩

end Diagram

namespace Build

variable [Scalar α]

/-! ## The port of a crossing -/

/-- The port declared for the connector of a crossing, if there is one. -/
def declaredPort (d : Diagram α) (c : Connector) (k : Crossing) : Option (FlatPort α) :=
  (c.name.filter (· != "")).bind fun name =>
    (d.portsOf k.boundary).find? (·.connectorRef == some name)

/-- The id of the port that a crossing uses: that of the declared one, or the one it is to have. -/
theorem crossingPort_id (d : Diagram α) (c : Connector) (k : Crossing) :
    (crossingPort d c k).1 = ((declaredPort d c k).map (·.id)).getD (crossingPortId c k) := by
  rw [crossingPort, ← declaredPort]
  cases declaredPort d c k with
  | some p => rfl
  | none =>
    cases hp : d.port? k.boundary (crossingPortId c k) with
    | some p =>
      simp only [hp, Option.map_none, Option.getD_none]
      exact (Diagram.port?_some hp).2.2
    | none => simp only [hp, Option.map_none, Option.getD_none]

/-- A port that a crossing makes is one that its component did not have. -/
structure IsNew (d : Diagram α) (p : FlatPort α) : Prop where
  fresh : d.port? p.owner p.id = none
  undeclared : p.connectorRef = none

theorem crossingPort_isNew {d : Diagram α} {c : Connector} {k : Crossing} {p : FlatPort α}
    (h : (crossingPort d c k).2 = some p) : IsNew d p := by
  rw [crossingPort, ← declaredPort] at h
  cases hd : declaredPort d c k with
  | some q =>
    rw [hd] at h
    cases h
  | none =>
    cases hp : d.port? k.boundary (crossingPortId c k) with
    | some q =>
      simp only [hd, hp] at h
      cases h
    | none =>
      simp only [hd, hp] at h
      cases h
      exact ⟨hp, rfl⟩

/-- The port that a crossing goes through: the one declared for the connector, or else the one with
the right id, or else the one that is made. -/
def passage (d : Diagram α) (c : Connector) (k : Crossing) : Option (FlatPort α) :=
  (declaredPort d c k).or
    ((d.port? k.boundary (crossingPortId c k)).or (crossingPort d c k).2)

/-- A crossing goes through a port of its boundary, which its two parts name. -/
theorem passage_spec (d : Diagram α) (c : Connector) (k : Crossing) :
    ∃ p ∈ d.ports ++ (crossingPort d c k).2.toList, passage d c k = some p ∧
      p.owner = k.boundary ∧ p.id = (crossingPort d c k).1 := by
  rw [passage, crossingPort, ← declaredPort]
  cases hd : declaredPort d c k with
  | some p =>
    obtain ⟨name, -, hfind⟩ := Option.bind_eq_some_iff.mp hd
    obtain ⟨hmem, howner⟩ := List.mem_filter.mp (List.mem_of_find?_eq_some hfind)
    exact ⟨p, List.mem_append_left _ hmem, rfl, beq_iff_eq.mp howner, rfl⟩
  | none =>
    cases hp : d.port? k.boundary (crossingPortId c k) with
    | some p =>
      obtain ⟨hmem, howner, -⟩ := Diagram.port?_some hp
      simp only [hp]
      exact ⟨p, List.mem_append_left _ hmem, rfl, howner, rfl⟩
    | none =>
      simp only [hp]
      exact ⟨_, List.mem_append_right _ (List.mem_singleton_self _), rfl, rfl, rfl⟩

/-! ## One connector after the other -/

theorem routeAll_cons (d : Diagram α) (c : Connector) (rest : List Connector) :
    routeAll d (c :: rest) =
      routeConnector d c :: routeAll (d.withPorts (routeConnector d c).created.toList) rest := rfl

omit [Scalar α] in
theorem created_cons (r : Routed α) (rs : List (Routed α)) :
    (r :: rs).filterMap (·.created) = r.created.toList ++ rs.filterMap (·.created) := by
  cases h : r.created <;> simp [h]

theorem routeAll_append (d : Diagram α) (xs ys : List Connector) : routeAll d (xs ++ ys) =
    routeAll d xs ++ routeAll (d.withPorts ((routeAll d xs).filterMap (·.created))) ys := by
  induction xs generalizing d with
  | nil => simp [routeAll]
  | cons c xs ih =>
    rw [List.cons_append, routeAll_cons, routeAll_cons, ih, Diagram.withPorts_withPorts, created_cons,
      List.cons_append]

theorem length_routeAll (d : Diagram α) (cs : List Connector) :
    (routeAll d cs).length = cs.length := by
  induction cs generalizing d with
  | nil => rfl
  | cons c cs ih => rw [routeAll_cons, List.length_cons, List.length_cons, ih]

theorem created_isNew {d : Diagram α} {c : Connector} {p : FlatPort α}
    (h : (routeConnector d c).created = some p) : IsNew d p := by
  rw [routeConnector] at h
  split at h
  · cases h
  · cases h
  · exact crossingPort_isNew h

/-- No connector makes a port that was there before. -/
theorem routeAll_isNew (d : Diagram α) (cs : List Connector) :
    ∀ p ∈ (routeAll d cs).filterMap (·.created), IsNew d p := by
  induction cs generalizing d with
  | nil => simp [routeAll]
  | cons c cs ih =>
    intro p hp
    rw [routeAll_cons, created_cons, List.mem_append, Option.mem_toList] at hp
    rcases hp with hp | hp
    · exact created_isNew hp
    · obtain ⟨hfresh, hundeclared⟩ := ih _ p hp
      rw [Diagram.port?_withPorts, Option.or_eq_none_iff] at hfresh
      exact ⟨hfresh.1, hundeclared⟩

/-- What holds of a connector routed while the diagram is built, and of no ports but those that are
there in the end, holds of all connectors. -/
theorem forall₂_routeAll {P : Connector → Routed α → Prop} (ports : List (FlatPort α))
    {d : Diagram α} {cs : List Connector}
    (hports : ∀ p ∈ d.ports ++ (routeAll d cs).filterMap (·.created), p ∈ ports)
    (h : ∀ e c, e.nodes = d.nodes →
      (∀ p ∈ e.ports ++ (routeConnector e c).created.toList, p ∈ ports) →
      P c (routeConnector e c)) : List.Forall₂ P cs (routeAll d cs) := by
  induction cs generalizing d with
  | nil => exact .nil
  | cons c cs ih =>
    rw [routeAll_cons] at hports ⊢
    rw [created_cons, ← List.append_assoc] at hports
    exact .cons (h d c rfl fun p hp => hports p (List.mem_append_left _ hp)) (ih hports h)

/-- What is made of a connector depends on the nodes and ports of the diagram only. -/
theorem routeConnector_congr {d e : Diagram α} (hn : d.nodes = e.nodes) (hp : d.ports = e.ports)
    (c : Connector) : routeConnector d c = routeConnector e c := by
  obtain ⟨_, nodes, ports, _⟩ := d
  obtain ⟨_, nodes', ports', _⟩ := e
  obtain rfl : nodes = nodes' := hn
  obtain rfl : ports = ports' := hp
  rfl

/-- The connectors that stand for each connector of the document. -/
def groups (doc : Document α) : List (List Connector) :=
  (routeAll (flatten doc) doc.connectors).map (·.connectors)

theorem diagram_connectors (doc : Document α) :
    (diagram doc).connectors = (groups doc).flatten := by
  simp [diagram, addRouted, groups, flatten, List.flatMap]

theorem diagram_ports (doc : Document α) : (diagram doc).ports =
    (flatten doc).ports ++ (routeAll (flatten doc) doc.connectors).filterMap (·.created) := rfl

/-- A connector is routed in the diagram that the connectors before it have built. -/
theorem groups_at {doc : Document α} {before after : List Connector} {c : Connector}
    (h : doc.connectors = before ++ c :: after) : (groups doc)[before.length]? =
      some (routeConnector (diagram { doc with connectors := before }) c).connectors := by
  have hlength := length_routeAll (flatten doc) before
  rw [groups, h, routeAll_append, routeAll_cons, List.map_append, List.map_cons,
    List.getElem?_append_right (by simp [hlength]), List.length_map, hlength, Nat.sub_self,
    List.getElem?_cons_zero]
  rfl

end Build
end ComponentDiagram
