import ComponentDiagram.Proofs.Build.Crossing

/-! What the connectors before it change for a connector. They can only make ports, and a port that
they make takes part in routing at one place: a container is not entered through a port that it
has. -/
namespace ComponentDiagram.Build

variable {α : Type}

/-! ## Containers -/

/-- The end names no port that its component has. -/
def IsUnported (d : Diagram α) (e : Endpoint) : Prop :=
  ∀ port ∈ e.port, d.port? e.node port = none

/-- The end at which a connector of one level enters a container. -/
def openedEnd (d : Diagram α) (c : Connector) : Option Endpoint :=
  if d.parentOf (some c.source.node) = d.parentOf (some c.target.node) then
    [c.target, c.source].find? fun e => (opensContainer d e).isSome
  else none

/-- The crossing into the first child of a container. -/
def entered (d : Diagram α) (e : Endpoint) (nestedIsSource : Bool) : Option Crossing :=
  (opensContainer d e).bind fun n =>
    n.childIds.head?.map fun nested => ⟨e.node, nested, nestedIsSource⟩

section

variable {d : Diagram α} {ps : List (FlatPort α)} {e : Endpoint} {nestedIsSource : Bool}

/-- Among more ports, the containers are entered that are not entered through one of them. -/
theorem opensContainer_withPorts {n : FlatNode α} : opensContainer (d.withPorts ps) e = some n ↔
    opensContainer d e = some n ∧ IsUnported (d.withPorts ps) e := by
  constructor
  · intro h
    obtain ⟨hn, hchildren, port, hport, hnone⟩ := opensContainer_some.mp h
    refine ⟨opensContainer_some.mpr ⟨hn, hchildren, port, hport, ?_⟩, fun q hq => ?_⟩
    · rw [Diagram.port?_withPorts, Option.or_eq_none_iff] at hnone
      exact hnone.1
    · rw [hport] at hq
      cases hq
      exact hnone
  · rintro ⟨h, hunported⟩
    obtain ⟨hn, hchildren, port, hport, -⟩ := opensContainer_some.mp h
    exact opensContainer_some.mpr ⟨hn, hchildren, port, hport, hunported port hport⟩

theorem entered_eq_none : entered d e nestedIsSource = none ↔ opensContainer d e = none := by
  rw [entered]
  cases h : opensContainer d e with
  | none => simp
  | some n => simpa using (opensContainer_some.mp h).2.1

theorem entered_withPorts_none (h : entered d e nestedIsSource = none) :
    entered (d.withPorts ps) e nestedIsSource = none := by
  rw [entered_eq_none, Option.eq_none_iff_forall_ne_some] at h ⊢
  exact fun n hn => h n (opensContainer_withPorts.mp hn).1

theorem entered_withPorts_iff (h : entered d e nestedIsSource ≠ none) :
    entered (d.withPorts ps) e nestedIsSource = entered d e nestedIsSource ↔
      IsUnported (d.withPorts ps) e := by
  constructor
  · intro heq
    rw [← heq, Ne, entered_eq_none] at h
    obtain ⟨n, hn⟩ := Option.ne_none_iff_exists'.mp h
    exact (opensContainer_withPorts.mp hn).2
  · intro hunported
    rw [Ne, entered_eq_none] at h
    obtain ⟨n, hn⟩ := Option.ne_none_iff_exists'.mp h
    rw [entered, entered, hn, opensContainer_withPorts.mpr ⟨hn, hunported⟩]

theorem nestedIsSource_of_entered {k : Crossing} (h : entered d e nestedIsSource = some k) :
    k.nestedIsSource = nestedIsSource := by
  obtain ⟨n, -, h⟩ := Option.bind_eq_some_iff.mp h
  obtain ⟨nested, -, rfl⟩ := Option.map_eq_some_iff.mp h
  rfl

end

/-! ## Crossings -/

/-- The boundary that a connector is split at. -/
def crossed (d : Diagram α) (c : Connector) : Option Crossing :=
  match route d c with
  | .crossing k => some k
  | _ => none

variable {d : Diagram α} {ps : List (FlatPort α)} {c : Connector}

/-- A connector of one level is split where it enters a container, its target before its source. -/
theorem crossed_level (h : d.parentOf (some c.source.node) = d.parentOf (some c.target.node)) :
    crossed d c = (entered d c.target false).or (entered d c.source true) := by
  have hcontainer : containerCrossing d c =
      (entered d c.target false).or (entered d c.source true) := by
    rw [containerCrossing]
    cases ht : opensContainer d c.target with
    | none => rw [entered_eq_none.mpr ht, Option.none_or, entered]
    | some n =>
      have hsome : entered d c.target false ≠ none := by
        rw [Ne, entered_eq_none, ht]
        exact Option.some_ne_none n
      rw [Option.or_of_isSome (Option.isSome_iff_ne_none.mpr hsome), entered, ht]
      rfl
  rw [crossed, route]
  simp only [if_pos h, ← hcontainer]
  cases containerCrossing d c <;> rfl

/-- Between levels, ports do not matter. -/
theorem crossed_levels (h : d.parentOf (some c.source.node) ≠ d.parentOf (some c.target.node)) :
    crossed (d.withPorts ps) c = crossed d c := by
  have hboundary : boundaryOf (d.withPorts ps) = boundaryOf d := rfl
  have hroute : route (d.withPorts ps) c = route d c := by
    simp only [route, Diagram.parentOf_withPorts, if_neg h, hboundary]
  rw [crossed, crossed, hroute]

theorem openedEnd_level (h : d.parentOf (some c.source.node) = d.parentOf (some c.target.node)) :
    openedEnd d c = [c.target, c.source].find? fun e => (opensContainer d e).isSome := if_pos h

/-- More ports leave the crossing as it is exactly if the container is not entered through one of
them. -/
theorem crossed_withPorts_iff : crossed (d.withPorts ps) c = crossed d c ↔
    ∀ e ∈ openedEnd d c, IsUnported (d.withPorts ps) e := by
  by_cases hlevel : d.parentOf (some c.source.node) = d.parentOf (some c.target.node)
  swap
  · simp [crossed_levels hlevel, openedEnd, hlevel]
  rw [crossed_level hlevel, crossed_level (d := d.withPorts ps) hlevel, openedEnd_level hlevel]
  by_cases htarget : entered d c.target false = none
  · rw [htarget, entered_withPorts_none htarget, Option.none_or, Option.none_or,
      List.find?_cons_of_neg (by simp [entered_eq_none.mp htarget])]
    by_cases hsource : entered d c.source true = none
    · simp [hsource, entered_withPorts_none hsource, entered_eq_none.mp hsource]
    · rw [entered_withPorts_iff hsource, List.find?_cons_of_pos]
      · simp
      · rwa [Option.isSome_iff_ne_none, Ne, ← entered_eq_none]
  · rw [List.find?_cons_of_pos (by rwa [Option.isSome_iff_ne_none, Ne, ← entered_eq_none]),
      Option.or_of_isSome (Option.isSome_iff_ne_none.mpr htarget)]
    -- a crossing at the source is not the one at the target
    have hfirst : (entered (d.withPorts ps) c.target false).or
          (entered (d.withPorts ps) c.source true) = entered d c.target false ↔
        entered (d.withPorts ps) c.target false = entered d c.target false := by
      cases hentered : entered (d.withPorts ps) c.target false with
      | some k => rw [Option.some_or]
      | none =>
        obtain ⟨k, hk⟩ := Option.ne_none_iff_exists'.mp htarget
        rw [Option.none_or, hk]
        constructor
        · intro hsource
          have htrue := nestedIsSource_of_entered hsource
          have hfalse := nestedIsSource_of_entered hk
          rw [htrue] at hfalse
          cases hfalse
        · rintro ⟨⟩
    rw [hfirst, entered_withPorts_iff htarget]
    simp

/-! ## Groups -/

theorem crossed_some {k : Crossing} : crossed d c = some k ↔ route d c = .crossing k := by
  rw [crossed]
  cases route d c <;> simp

variable [Scalar α]

theorem connectors_of_crossed {k : Crossing} (h : crossed d c = some k) :
    (routeConnector d c).connectors =
      if k.nestedIsSource then
        [internalPart c k (crossingPort d c k).1, externalPart c k (crossingPort d c k).1]
      else [externalPart c k (crossingPort d c k).1, internalPart c k (crossingPort d c k).1] :=
  (routeConnector_crossing (crossed_some.mp h)).2

theorem connectors_of_not_crossed (h : crossed d c = none) :
    (routeConnector d c).connectors = [c] := by
  refine routeConnector_copy fun k hk => ?_
  rw [crossed_some.mpr hk] at h
  cases h

/-- The crossing that two parts of a connector were made at. -/
def placeOf : List Connector → Option Crossing
  | [first, second] =>
    if first.origin = .synthesized then some ⟨second.target.node, first.target.node, true⟩
    else some ⟨first.target.node, second.target.node, false⟩
  | _ => none

theorem placeOf_connectors (d : Diagram α) (c : Connector) :
    placeOf (routeConnector d c).connectors = crossed d c := by
  cases hk : crossed d c with
  | none =>
    rw [connectors_of_not_crossed hk]
    rfl
  | some k =>
    obtain ⟨boundary, nested, nestedIsSource⟩ := k
    rw [connectors_of_crossed hk]
    cases nestedIsSource <;> simp [placeOf, internalPart, externalPart]

/-- Ports that are not declared for a connector do not change which port a crossing uses. -/
theorem crossingPort_withPorts (h : ∀ p ∈ ps, p.connectorRef = none) (k : Crossing) :
    (crossingPort (d.withPorts ps) c k).1 = (crossingPort d c k).1 := by
  have hdeclared : declaredPort (d.withPorts ps) c k = declaredPort d c k := by
    rw [declaredPort, declaredPort]
    congr 1
    funext name
    have hnone : (ps.filter (·.owner == k.boundary)).find? (·.connectorRef == some name) = none := by
      rw [List.find?_eq_none]
      intro p hp
      rw [h p (List.mem_filter.mp hp).1]
      simp
    rw [Diagram.portsOf, Diagram.withPorts, List.filter_append, List.find?_append, hnone,
      Option.or_none]
    rfl
  rw [crossingPort_id, crossingPort_id, hdeclared]

theorem connectors_withPorts_iff (h : ∀ p ∈ ps, p.connectorRef = none) :
    (routeConnector (d.withPorts ps) c).connectors = (routeConnector d c).connectors ↔
      crossed (d.withPorts ps) c = crossed d c := by
  refine ⟨fun heq => by rw [← placeOf_connectors, heq, placeOf_connectors], fun heq => ?_⟩
  cases hk : crossed d c with
  | none => rw [connectors_of_not_crossed hk, connectors_of_not_crossed (heq.trans hk)]
  | some k =>
    rw [connectors_of_crossed hk, connectors_of_crossed (heq.trans hk), crossingPort_withPorts h]

/-- A connector stands for the same as without the others exactly if none of those before it has
made the port through which it enters a container. -/
theorem group_alone_iff (doc : Document α) (before after : List Connector) (c : Connector)
    (h : doc.connectors = before ++ c :: after) :
    (diagram doc).connectors = (groups doc).flatten ∧
    ∃ group, (groups doc)[before.length]? = some group ∧
      (group = (diagram { doc with connectors := [c] }).connectors ↔
        ∀ e ∈ openedEnd (flatten doc) c,
          IsUnported (diagram { doc with connectors := before }) e) := by
  refine ⟨diagram_connectors doc, _, groups_at h, ?_⟩
  obtain ⟨ps, hps, hports⟩ : ∃ ps, (∀ p ∈ ps, IsNew (flatten doc) p) ∧
      (diagram { doc with connectors := before }).ports = (flatten doc).ports ++ ps :=
    ⟨_, routeAll_isNew (flatten doc) before, rfl⟩
  have halone : (diagram { doc with connectors := [c] }).connectors =
      (routeConnector (flatten doc) c).connectors := by
    rw [diagram_connectors, groups, routeAll_cons, routeAll, List.map_singleton, List.flatten_singleton]
    rfl
  have hgroup : routeConnector (diagram { doc with connectors := before }) c =
      routeConnector ((flatten doc).withPorts ps) c :=
    routeConnector_congr (e := (flatten doc).withPorts ps) (by rfl) hports c
  have hunported (e : Endpoint) : IsUnported (diagram { doc with connectors := before }) e ↔
      IsUnported ((flatten doc).withPorts ps) e := by
    simp only [IsUnported, Diagram.port?, hports]
    rfl
  rw [halone, hgroup, connectors_withPorts_iff fun p hp => (hps p hp).undeclared,
    crossed_withPorts_iff]
  simp only [hunported]

/-- An arrow to a port of the container. -/
def arrowTo (id source port : String) : Connector :=
  { kind := .plain .short, id, source := ⟨source, none⟩, target := ⟨"o", some port⟩ }

/-- Two components, both with an arrow to one port of a container, and one of them with another
arrow to a second one. -/
def sharedPort : Document Rat :=
  { roots := [.node { id := "o" } [.node { id := "i" } []], .node { id := "a" } [],
      .node { id := "b" } []],
    connectors := [arrowTo "e" "a" "p", arrowTo "f" "b" "p", arrowTo "g" "b" "q"] }

theorem group_alone_iff_sharedPort :
    sharedPort.connectors =
      [arrowTo "e" "a" "p", arrowTo "f" "b" "p"] ++ arrowTo "g" "b" "q" :: [] ∧
    openedEnd (flatten sharedPort) (arrowTo "g" "b" "q") = some ⟨"o", some "q"⟩ ∧
    (groups sharedPort)[2]? =
      some (diagram { sharedPort with connectors := [arrowTo "g" "b" "q"] }).connectors := by
  have hopened : openedEnd (flatten sharedPort) (arrowTo "g" "b" "q") = some ⟨"o", some "q"⟩ := by
    decide
  refine ⟨rfl, hopened, ?_⟩
  obtain ⟨-, group, hgroup, halone⟩ := group_alone_iff sharedPort
    [arrowTo "e" "a" "p", arrowTo "f" "b" "p"] [] (arrowTo "g" "b" "q") rfl
  rw [halone.mpr] at hgroup
  · exact hgroup
  · rw [hopened]
    rintro e ⟨⟩ port ⟨⟩
    rfl

/-- The second arrow ends at the container, since the first one has made the port. Alone, it leads on
to what lies inside. -/
theorem group_alone_breaks : ¬ ∀ before after c, sharedPort.connectors = before ++ c :: after →
    (groups sharedPort)[before.length]? =
      some (diagram { sharedPort with connectors := [c] }).connectors := by
  have hgroup : (groups sharedPort)[1]? = some [arrowTo "f" "b" "p"] := by decide
  have halone : (diagram { sharedPort with connectors := [arrowTo "f" "b" "p"] }).connectors =
      [{ arrowTo "f" "b" "p" with origin := .crossLevel },
        { kind := .delegate, id := "f-interface", source := ⟨"o", some "p"⟩,
          target := ⟨"i", none⟩, origin := .synthesized }] := by decide
  intro h
  have hsame := h [arrowTo "e" "a" "p"] [arrowTo "g" "b" "q"] (arrowTo "f" "b" "p") rfl
  rw [halone] at hsame
  cases hgroup.symm.trans hsame

end ComponentDiagram.Build
