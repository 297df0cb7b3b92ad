import ComponentDiagram.Proofs.Build.Crossing

/-! The table of ports of a flat view: what the author has declared, and then the ports that are made
for connectors. A port that is made has an owner and an id that no port before it has, so the table
stays one in which every port is found by them. -/
namespace ComponentDiagram

variable {α : Type}

/-- What a port is looked up by. -/
def FlatPort.key (p : FlatPort α) : String × String := (p.owner, p.id)

namespace Diagram

variable {d : Diagram α}

theorem port?_eq_none {owner id : String} :
    d.port? owner id = none ↔ (owner, id) ∉ d.ports.map FlatPort.key := by
  simp [port?, FlatPort.key]

/-- Where ports differ in owner or id, each of them is found. -/
theorem port?_of_mem (h : (d.ports.map FlatPort.key).Nodup) {p : FlatPort α} (hp : p ∈ d.ports) :
    d.port? p.owner p.id = some p := by
  cases hfind : d.port? p.owner p.id with
  | none => exact absurd (List.mem_map_of_mem hp) (port?_eq_none.mp hfind)
  | some q =>
    obtain ⟨hq, howner, hid⟩ := port?_some hfind
    exact congrArg some (List.inj_on_of_nodup_map h hq hp (Prod.ext howner hid))

/-- What is found is found among more ports. -/
theorem port?_mono {owner id : String} {p : FlatPort α} (h : d.port? owner id = some p)
    (ps : List (FlatPort α)) : (d.withPorts ps).port? owner id = some p := by
  rw [port?_withPorts, h, Option.some_or]

end Diagram

namespace Build

variable [Scalar α]

/-! ## Ports that are made -/

omit [Scalar α] in
/-- A port that is made has a new key. -/
theorem IsNew.key {d : Diagram α} {p : FlatPort α} (h : IsNew d p) :
    p.key ∉ d.ports.map FlatPort.key :=
  Diagram.port?_eq_none.mp h.fresh

/-- Routing one connector keeps the keys of the table different. -/
theorem nodup_routeConnector {d : Diagram α} (h : (d.ports.map FlatPort.key).Nodup)
    (c : Connector) :
    ((d.withPorts (routeConnector d c).created.toList).ports.map FlatPort.key).Nodup := by
  cases hc : (routeConnector d c).created with
  | none => rwa [Option.toList_none, Diagram.withPorts_nil]
  | some p =>
    have hnew := (created_isNew hc).key
    rw [Diagram.withPorts, Option.toList_some, List.map_append, List.nodup_append']
    exact ⟨h, List.nodup_singleton _, List.disjoint_singleton.mpr hnew⟩

/-- So does routing connectors one after the other. -/
theorem nodup_routeAll {d : Diagram α} (h : (d.ports.map FlatPort.key).Nodup)
    (cs : List Connector) :
    ((d.withPorts ((routeAll d cs).filterMap (·.created))).ports.map FlatPort.key).Nodup := by
  induction cs generalizing d with
  | nil => rwa [routeAll, List.filterMap_nil, Diagram.withPorts_nil]
  | cons c cs ih =>
    rw [routeAll_cons, created_cons, ← Diagram.withPorts_withPorts]
    exact ih (nodup_routeConnector h c)

/-- A port that is made has no key of a port before it. -/
theorem key_routeAll {d : Diagram α} {cs : List Connector} {before after : List (FlatPort α)}
    {p : FlatPort α} (h : (routeAll d cs).filterMap (·.created) = before ++ p :: after) :
    p.key ∉ (d.ports ++ before).map FlatPort.key := by
  induction cs generalizing d before with
  | nil => simp [routeAll] at h
  | cons c cs ih =>
    rw [routeAll_cons, created_cons] at h
    cases hc : (routeConnector d c).created with
    | none =>
      rw [hc, Option.toList_none, Diagram.withPorts_nil, List.nil_append] at h
      exact ih h
    | some q =>
      rw [hc, Option.toList_some, List.singleton_append] at h
      cases before with
      | nil =>
        obtain ⟨rfl, -⟩ := List.cons.inj h
        rw [List.append_nil]
        exact (created_isNew hc).key
      | cons r before =>
        obtain ⟨rfl, hrest⟩ := List.cons.inj h
        rw [List.append_cons]
        exact ih hrest

/-! ## The table -/

/-- The ports that the author has declared, in pre-order of their components. -/
def declaredPorts (doc : Document α) : List (FlatPort α) :=
  doc.components.flatMap fun c => c.ports.map (flatPort c.id)

/-- For each connector, the port that is made when it is routed. -/
def madePorts (doc : Document α) : List (Option (FlatPort α)) :=
  (routeAll (flatten doc) doc.connectors).map (·.created)

theorem reduceOption_madePorts (doc : Document α) : (madePorts doc).reduceOption =
    (routeAll (flatten doc) doc.connectors).filterMap (·.created) := by
  rw [madePorts, List.reduceOption, List.filterMap_map]
  rfl

/-- Connectors that are routed later only add ports. -/
theorem exists_ports_later (doc : Document α) (before between : List Connector) :
    ∃ ps, (diagram { doc with connectors := before ++ between }).ports =
      (diagram { doc with connectors := before }).ports ++ ps := by
  refine ⟨(routeAll ((flatten doc).withPorts
    ((routeAll (flatten doc) before).filterMap (·.created))) between).filterMap (·.created), ?_⟩
  rw [diagram_ports, diagram_ports, routeAll_append, List.filterMap_append, List.append_assoc]
  rfl

/-- A reference that leads to a port leads to it while connectors are routed later. -/
theorem port?_later {doc : Document α} {before : List Connector} {owner id : String}
    {p : FlatPort α} (h : (diagram { doc with connectors := before }).port? owner id = some p)
    (between : List Connector) :
    (diagram { doc with connectors := before ++ between }).port? owner id = some p := by
  obtain ⟨ps, hps⟩ := exists_ports_later doc before between
  have hmore := Diagram.port?_mono h ps
  rw [Diagram.port?] at hmore ⊢
  rw [hps]
  exact hmore

/-- Routing a connector adds the port that is made for it. -/
theorem ports_next (doc : Document α) (before : List Connector) (c : Connector) :
    (diagram { doc with connectors := before ++ [c] }).ports =
      (diagram { doc with connectors := before }).ports ++
        (routeConnector (diagram { doc with connectors := before }) c).created.toList := by
  rw [diagram_ports, diagram_ports, routeAll_append, routeAll_cons, List.filterMap_append,
    created_cons, List.append_assoc]
  simp only [routeAll, List.filterMap_nil, List.append_nil]
  rfl

/-- The parts of a connector that crosses a boundary at a port, in their order. -/
def parts (c : Connector) (k : Crossing) (port : String) : List Connector :=
  if k.nestedIsSource then [internalPart c k port, externalPart c k port]
  else [externalPart c k port, internalPart c k port]

/-- What references lead to when a connector has been routed and when more connectors have. -/
structure KeepsPorts (start routed later : Diagram α) (c : Connector) (group : List Connector) :
    Prop where
  /-- A port that is found at first is found later. -/
  found : ∀ owner id p, routed.port? owner id = some p → later.port? owner id = some p
  /-- The two parts of a connector that is split name the port that the crossing went through. -/
  passage : ∀ k, route start c = .crossing k → ∃ p, passage start c k = some p ∧
    group = parts c k p.id ∧ routed.port? k.boundary p.id = some p

theorem keepsPorts_between {doc : Document α}
    (h : ((declaredPorts doc).map FlatPort.key).Nodup) (before between : List Connector)
    (c : Connector) :
    KeepsPorts (diagram { doc with connectors := before })
      (diagram { doc with connectors := before ++ [c] })
      (diagram { doc with connectors := before ++ c :: between }) c
      (routeConnector (diagram { doc with connectors := before }) c).connectors := by
  constructor
  · intro owner id p hp
    have hlater := port?_later hp between
    rwa [List.append_assoc, List.singleton_append] at hlater
  · intro k hk
    obtain ⟨hcreated, hparts⟩ := routeConnector_crossing hk
    obtain ⟨p, hp, hpassage, howner, hid⟩ :=
      passage_spec (diagram { doc with connectors := before }) c k
    refine ⟨p, hpassage, by rw [hparts, parts, hid], ?_⟩
    rw [← howner]
    apply Diagram.port?_of_mem
    · exact nodup_routeAll (d := flatten doc) h (before ++ [c])
    · rw [ports_next, hcreated]
      exact hp

/-- An arrow to a port of the container that nobody has declared. -/
def arrowInto (id : String) (name : Option String) : Connector :=
  { kind := .plain .short, id, source := ⟨"a", none⟩, target := ⟨"o", some "q"⟩, name }

/-- A container with a port that is declared for connectors of one name, and two arrows into it, of
which the first has that name. -/
def portedContainer : Document Rat :=
  { roots := [
      .node { id := "o", ports := [{ id := "p", side := .left, connectorRef := some "n" }] }
        [.node { id := "i" } []],
      .node { id := "a" } []],
    connectors := [arrowInto "e" (some "n"), arrowInto "f" none] }

end Build

end ComponentDiagram
