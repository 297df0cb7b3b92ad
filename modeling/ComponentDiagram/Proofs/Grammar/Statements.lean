import ComponentDiagram.Proofs.Grammar.Steps

/-! Statements succeed exactly where a clause stands, and do what the clause does. -/
namespace ComponentDiagram.Grammar

namespace Reader

variable {α : Type} {input : Input} {body : List Token} {last : Token}
  (hin : input.Holds body last)

theorem isConnector_ne_identifier {k : TokenKind} (h : k.isConnector = true) : k ≠ .identifier := by
  rintro rfl
  cases h

/-- What an edge reads after its source. -/
def edgeRest (input : Input) (name interface : Option String) (source : Token) :
    Reader α Connector := do
  let drawn ← current input
  if !drawn.kind.isConnector then
    failAt input ("Expected connector (->, -->, ->delegate-> or interface notation) " ++
      s!"after '{source.text}'") drawn
  let _ ← advance input
  let target ← expect input .identifier "Expected target node"
  let label ← trailingLabel input
  let drawnKind ← match connectorKind drawn with
    | .ok k => pure k
    | .error e => throw e
  let made : Connector :=
    { kind := drawnKind
      id := s!"edge-{(← get).connectors.length}"
      source := Endpoint.ofString source.text
      target := Endpoint.ofString target.text
      name
      label
      interfaceName := interface }
  modify fun s => { s with connectors := s.connectors ++ [made] }
  return made

/-- What a component reads after its position. -/
def blockPart (input : Input) (block : Reader α Unit) (made : Component α)
    (attached : Bool) (m : String) : Reader α (ComponentTree α) := do
  if (← kind input) == .leftBrace then
    let _ ← advance input
    modify (·.enter made attached)
    block
    let _ ← expect input .rightBrace m
    let read := ((← get).scope.head?.map (·.tree [])).getD (.node made [])
    modify State.close
    return read
  else
    if attached then
      modify (·.attach (.node made []))
    return .node made []

/-- What a component reads after its position. -/
def componentRest (input : Input) (block : Reader α Unit) (opening : Token) (id label : String)
    (place : Option (α × α)) : Reader α (ComponentTree α) := do
  let made : Component α := { id, label, x := place.map (·.1), y := place.map (·.2) }
  let depth := (← get).scope.length
  let attached := match input.depthLimit with
    | some limit => decide (depth < limit)
    | none => true
  if !attached then
    warn (s!"Node '{id}' exceeds maximum nesting depth of {input.depthLimit.getD 0} " ++
      "and was dropped") opening
  if (← kind input) == .leftBrace then
    let _ ← advance input
    modify fun s => { s with scope := ⟨made, [], attached⟩ :: s.scope }
    block
    let _ ← expect input .rightBrace s!"Expected '\x7d' to close node '{id}'"
    let read := ((← get).scope.head?.map (·.tree [])).getD (.node made [])
    modify State.close
    return read
  else
    if attached then
      modify (·.attach (.node made []))
    return .node made []

/-- The state with a warning, unless a component may be opened in it. -/
def noted (limit : Option Nat) (opening : Token) (id : String) (s : State α) : State α :=
  if withinLimit limit s.scope.length then s else
    s.warned (s!"Node '{id}' exceeds maximum nesting depth of {limit.getD 0} " ++
      "and was dropped") opening

include hin

theorem expect_cons {wanted : TokenKind} (hw : wanted ≠ .endOfInput) {message : String} {t : Token}
    {ts : List Token} (hs : t :: ts <:+ body) (hk : t.kind = wanted) (s : State α) :
    expect input wanted message (facing body (t :: ts) s) = .ok t (facing body ts s) :=
  (expect_ok hin hw hs).mpr ⟨ts, rfl, hk, rfl⟩

theorem expectKind_cons {wanted : TokenKind} (hw : wanted ≠ .endOfInput) {t : Token}
    {ts : List Token} (hs : t :: ts <:+ body) (hk : t.kind = wanted) (s : State α) :
    expectKind input wanted (facing body (t :: ts) s) = .ok t (facing body ts s) :=
  (expectKind_ok hin hw hs).mpr ⟨ts, rfl, hk, rfl⟩

/-! ## Edges -/

private theorem edge_bare {t : Token} {ts : List Token} (hs : t :: ts <:+ body)
    (ht : t.kind = .identifier) (hk : headKind ts ≠ .identifier) (name : Option String)
    (s : State α) :
    edge input name (facing body (t :: ts) s) = edgeRest input name none t (facing body ts s) := by
  rw [edge, bind_of_ok (expect_cons hin (by decide) hs ht s),
    bind_of_ok (kind_facing hin (suffix_of_cons hs) s)]
  simp only [beq_eq_false_iff_ne.mpr hk, Bool.false_eq_true, if_false]
  rfl

private theorem edge_named {t t' : Token} {ts : List Token} (hs : t :: t' :: ts <:+ body)
    (ht : t.kind = .identifier) (hk : t'.kind = .identifier) (name : Option String)
    (s : State α) : edge input name (facing body (t :: t' :: ts) s) =
      edgeRest input name (some t.text) t' (facing body ts s) := by
  rw [edge, bind_of_ok (expect_cons hin (by decide) hs ht s),
    bind_of_ok (kind_facing hin (suffix_of_cons hs) s)]
  simp only [headKind, hk, beq_self_eq_true, if_true]
  rw [bind_of_ok (advance_facing hin (suffix_of_cons hs) s)]
  rfl

private theorem edgeRest_of {drawn target : Token} {rest : List Token} {kind : ConnectorKind}
    (hs : drawn :: target :: rest <:+ body) (hd : drawn.kind.isConnector = true)
    (ht : target.kind = .identifier) (hk : connectorKind drawn = .ok kind)
    (name iface : Option String) (source : Token) (s : State α) :
    ∃ c, edgeRest input name iface source (facing body (drawn :: target :: rest) s) =
      .ok c (facing body (trailing rest).2
        (s.connect name iface source.text kind target.text (trailing rest).1)) := by
  have hs' := suffix_of_cons hs
  rw [edgeRest, bind_of_ok (current_cons hin hs s)]
  simp only [hd, Bool.not_true, Bool.false_eq_true, if_false]
  rw [bind_of_ok (advance_facing hin hs s), bind_of_ok (expect_cons hin (by decide) hs' ht s),
    bind_of_ok (trailingLabel_facing hin (suffix_of_cons hs') s)]
  simp only [hk]
  exact ⟨_, rfl⟩

private theorem of_edgeRest {ts : List Token} (hs : ts <:+ body) {name iface : Option String}
    {source : Token} {s s' : State α} {c : Connector}
    (h : edgeRest input name iface source (facing body ts s) = .ok c s') :
    ∃ drawn target rest kind, ts = drawn :: target :: rest ∧ drawn.kind.isConnector = true ∧
      target.kind = .identifier ∧ connectorKind drawn = .ok kind ∧
      s' = facing body (trailing rest).2
        (s.connect name iface source.text kind target.text (trailing rest).1) := by
  cases ts with
  | nil =>
    rw [edgeRest, bind_of_ok (current_nil hin s)] at h
    simp [hin.last, TokenKind.isConnector, failAt, bind_ok] at h
  | cons drawn ts =>
    rw [edgeRest, bind_of_ok (current_cons hin hs s)] at h
    cases hd : drawn.kind.isConnector with
    | false => simp [hd, failAt, bind_ok] at h
    | true =>
      simp only [hd, Bool.not_true, Bool.false_eq_true, if_false] at h
      rw [bind_of_ok (advance_facing hin hs s), bind_ok] at h
      obtain ⟨target, s₁, h₁, h⟩ := h
      obtain ⟨rest, rfl, ht, rfl⟩ := (expect_ok hin (by decide) (suffix_of_cons hs)).mp h₁
      rw [bind_of_ok (trailingLabel_facing hin (suffix_of_cons (suffix_of_cons hs)) s)] at h
      cases hk : connectorKind drawn with
      | error e => simp [hk, bind_ok] at h
      | ok kind =>
        simp only [hk] at h
        refine ⟨drawn, target, rest, kind, rfl, hd, ht, hk, ?_⟩
        cases h
        rfl

/-- An edge is read exactly where its ends stand. -/
theorem edge_ok {ts : List Token} (hs : ts <:+ body) {name : Option String} {s s' : State α} :
    (∃ c, edge input name (facing body ts s) = .ok c s') ↔
      ∃ iface source drawn kind target rest, Ends ts iface source drawn target rest ∧
        connectorKind drawn = .ok kind ∧ s' = facing body (trailing rest).2
          (s.connect name iface source kind target (trailing rest).1) := by
  constructor
  · rintro ⟨c, h⟩
    have h' := h
    rw [edge, bind_ok] at h'
    obtain ⟨first, s₁, h₁, -⟩ := h'
    obtain ⟨ts, rfl, hf, -⟩ := (expect_ok hin (by decide) hs).mp h₁
    by_cases hk : headKind ts = .identifier
    · match ts with
      | [] => cases hk
      | source :: ts =>
        rw [edge_named hin hs hf hk] at h
        obtain ⟨drawn, target, rest, kind, rfl, hd, ht, hc, he⟩ :=
          of_edgeRest hin (suffix_of_cons (suffix_of_cons hs)) h
        exact ⟨_, _, drawn, kind, _, rest, .named hf hk hd ht, hc, he⟩
    · rw [edge_bare hin hs hf hk] at h
      obtain ⟨drawn, target, rest, kind, rfl, hd, ht, hc, he⟩ :=
        of_edgeRest hin (suffix_of_cons hs) h
      exact ⟨_, _, drawn, kind, _, rest, .bare hf hd ht, hc, he⟩
  · rintro ⟨iface, source, drawn, kind, target, rest, he, hc, rfl⟩
    cases he with
    | bare hf hd ht =>
      rw [edge_bare hin hs hf (isConnector_ne_identifier hd)]
      exact edgeRest_of hin (suffix_of_cons hs) hd ht hc ..
    | named hf hk hd ht =>
      rw [edge_named hin hs hf hk]
      exact edgeRest_of hin (suffix_of_cons (suffix_of_cons hs)) hd ht hc ..

/-! ## Positions -/

variable [Scalar α]

theorem coordinate_ok {ts : List Token} (hs : ts <:+ body) {s s' : State α} {x : α} :
    coordinate input (facing body ts s) = .ok x s' ↔
      ∃ t rest, ts = t :: rest ∧ t.kind = .number ∧ coordinateOf t.text = .ok x ∧
        s' = facing body rest s := by
  rw [coordinate, bind_ok]
  constructor
  · rintro ⟨t, s₁, h₁, h⟩
    obtain ⟨rest, rfl, hk, rfl⟩ := (expect_ok hin (by decide) hs).mp h₁
    cases hx : coordinateOf (α := α) t.text with
    | error e => simp [hx] at h
    | ok y =>
      simp only [hx] at h
      cases h
      exact ⟨t, rest, rfl, hk, hx, rfl⟩
  · rintro ⟨t, rest, rfl, hk, hx, rfl⟩
    refine ⟨t, _, expect_cons hin (by decide) hs hk s, ?_⟩
    simp only [hx, pure_run]

theorem position_ok {ts : List Token} (hs : ts <:+ body) {s s' : State α}
    {place : Option (α × α)} : position input (facing body ts s) = .ok place s' ↔
      ∃ rest, Placed ts place rest ∧ s' = facing body rest s := by
  rw [position, bind_of_ok (kind_facing hin hs s)]
  by_cases hk : headKind ts = .atSign
  · match ts with
    | [] => cases hk
    | sign :: ts =>
      have hs₁ := suffix_of_cons hs
      rw [if_neg (by simp [hk]), bind_of_ok (advance_facing hin hs s), bind_ok]
      constructor
      · rintro ⟨x, s₁, h₁, h⟩
        obtain ⟨across, ts, rfl, ha, hx, rfl⟩ := (coordinate_ok hin hs₁).mp h₁
        rw [bind_ok] at h
        obtain ⟨comma, s₂, h₂, h⟩ := h
        obtain ⟨ts, rfl, hc, rfl⟩ := (expect_ok hin (by decide) (suffix_of_cons hs₁)).mp h₂
        rw [bind_ok] at h
        obtain ⟨y, s₃, h₃, h⟩ := h
        obtain ⟨down, ts, rfl, hd, hy, rfl⟩ :=
          (coordinate_ok hin (suffix_of_cons (suffix_of_cons hs₁))).mp h₃
        cases h
        exact ⟨ts, .present hk ha hc hd hx hy, rfl⟩
      · rintro ⟨rest, hp, rfl⟩
        cases hp with
        | absent hn => exact absurd hk hn
        | @present _ across comma down _ x y _ ha hc hd hx hy =>
          have hs₂ := suffix_of_cons hs₁
          have hs₃ := suffix_of_cons hs₂
          refine ⟨x, _, (coordinate_ok hin hs₁).mpr ⟨across, _, rfl, ha, hx, rfl⟩, ?_⟩
          rw [bind_of_ok (expect_cons hin (by decide) hs₂ hc s),
            bind_of_ok ((coordinate_ok hin hs₃).mpr ⟨down, _, rfl, hd, hy, rfl⟩)]
          rfl
  · rw [if_pos (by simp [hk])]
    constructor
    · intro h
      cases h
      exact ⟨ts, .absent hk, rfl⟩
    · rintro ⟨rest, hp, rfl⟩
      cases hp with
      | absent => rfl
      | present hn => exact absurd hn hk

/-! ## Brackets and ports -/

omit [Scalar α] in
/-- An identifier in brackets, and what is read after it. -/
theorem brackets_ok {β : Type} {ts : List Token} (hs : ts <:+ body) {opening : Reader α Token}
    {s s' : State α} (ho : ∀ t s', opening (facing body ts s) = .ok t s' ↔
      ∃ rest, ts = t :: rest ∧ t.kind = .leftBracket ∧ s' = facing body rest s)
    {m : String} {m' : Token → String} {f : Token → Token → Reader α β} {b : β} :
    (opening >>= fun o => expect input .identifier m >>= fun i =>
      expect input .rightBracket (m' i) >>= fun _ => f o i) (facing body ts s) = .ok b s' ↔
      ∃ o i c rest, ts = o :: i :: c :: rest ∧ Brackets o i c ∧
        f o i (facing body rest s) = .ok b s' := by
  rw [bind_ok]
  constructor
  · rintro ⟨o, s₁, h₁, h⟩
    obtain ⟨ts, rfl, hl, rfl⟩ := (ho o s₁).mp h₁
    rw [bind_ok] at h
    obtain ⟨i, s₂, h₂, h⟩ := h
    obtain ⟨ts, rfl, hi, rfl⟩ := (expect_ok hin (by decide) (suffix_of_cons hs)).mp h₂
    rw [bind_ok] at h
    obtain ⟨c, s₃, h₃, h⟩ := h
    obtain ⟨ts, rfl, hc, rfl⟩ :=
      (expect_ok hin (by decide) (suffix_of_cons (suffix_of_cons hs))).mp h₃
    exact ⟨o, i, c, ts, rfl, ⟨hl, hi, hc⟩, h⟩
  · rintro ⟨o, i, c, rest, rfl, hb, h⟩
    have hs' := suffix_of_cons hs
    refine ⟨o, _, (ho o _).mpr ⟨_, rfl, hb.opening, rfl⟩, ?_⟩
    rw [bind_of_ok (expect_cons hin (by decide) hs' hb.inner s)]
    exact (bind_of_ok (expect_cons hin (by decide) (suffix_of_cons hs') hb.closing s)).trans h

omit [Scalar α] in
private theorem opening_ok {ts : List Token} (hs : ts <:+ body) (s : State α) (m : String) :
    ∀ t s', expect input .leftBracket m (facing body ts s) = .ok t s' ↔
      ∃ rest, ts = t :: rest ∧ t.kind = .leftBracket ∧ s' = facing body rest s :=
  fun _ _ => expect_ok hin (by decide) hs

omit [Scalar α] in
theorem portTarget_ok {ts : List Token} (hs : ts <:+ body) {id : String} {s s' : State α}
    {target : PortTarget} : portTarget input id (facing body ts s) = .ok target s' ↔
      ∃ word o i c rest, ts = word :: o :: i :: c :: rest ∧ word.kind = targetKind target ∧
        Brackets o i c ∧ i.text = targetName target ∧
        (word.kind = .withWord → s.scope.isEmpty = false) ∧ s' = facing body rest s := by
  rw [portTarget, bind_of_ok (kind_facing hin hs s)]
  cases ts with
  | nil => simp [headKind, bind_of_ok (current_nil hin s), failAt]
  | cons word ts =>
    have hs' := suffix_of_cons hs
    by_cases hon : word.kind = .onWord
    · simp only [headKind, hon]
      rw [bind_of_ok (advance_facing hin hs s)]
      refine (brackets_ok hin hs' (opening_ok hin hs' s _)).trans ?_
      constructor
      · rintro ⟨o, i, c, rest, rfl, hb, h⟩
        cases h
        exact ⟨word, o, i, c, rest, rfl, hon, hb, rfl, fun h => by simp [hon] at h, rfl⟩
      · rintro ⟨_, o, i, c, rest, he, hk, hb, hi, -, rfl⟩
        cases he
        refine ⟨o, i, c, rest, rfl, hb, ?_⟩
        cases target with
        | on node => rw [hi]; rfl
        | inside connector => simp [hon, targetKind] at hk
    by_cases hwith : word.kind = .withWord
    · simp only [headKind, hwith]
      rw [bind_of_ok (advance_facing hin hs s)]
      refine (brackets_ok hin hs' (opening_ok hin hs' s _)).trans ?_
      constructor
      · rintro ⟨o, i, c, rest, rfl, hb, h⟩
        rw [bind_of_ok (get_run _)] at h
        cases he : s.scope.isEmpty with
        | true =>
          rw [facing_scope, he, if_pos rfl, bind_ok] at h
          simp [failAt] at h
        | false =>
          rw [facing_scope, he, if_neg Bool.false_ne_true] at h
          cases h
          exact ⟨word, o, i, c, rest, rfl, hwith, hb, rfl, fun _ => rfl, rfl⟩
      · rintro ⟨_, o, i, c, rest, he, hk, hb, hi, hscope, rfl⟩
        cases he
        refine ⟨o, i, c, rest, rfl, hb, ?_⟩
        cases target with
        | on node => simp [hwith, targetKind] at hk
        | inside connector =>
          simp only [bind_of_ok (get_run _), facing_scope, hscope hwith]
          rw [hi]
          rfl
    · constructor
      · intro h
        exfalso
        revert h
        simp only [headKind]
        rw [bind_of_ok (current_cons hin hs s)]
        simp [failAt]
      · rintro ⟨_, o, i, c, rest, he, hk, -, -, -, -⟩
        cases he
        cases target <;> simp [targetKind, hon, hwith] at hk

omit hin [Scalar α] in
theorem addPort?_facing (body ts : List Token) (s : State α) (id : String) (port : Port α) :
    (facing body ts s).addPort? id port = (s.addPort? id port).map (facing body ts) := by
  unfold State.addPort?
  split
  · rfl
  · simp only [facing_scope, facing_roots]
    split
    · rfl
    · split
      · rfl
      · rw [Option.map_map]
        rfl

omit [Scalar α] in
theorem port_tail {ts : List Token} (hs : ts <:+ body) {opening : Token} {id : String}
    {target : PortTarget} {s s' : State α}
    (hscope : ∀ connector, target = .inside connector → s.scope.isEmpty = false) {side : Side} :
    (∃ p, (do
      let label ← trailingLabel input
      match target with
      | .inside connector =>
        let made : Port α := { id, side, label, connectorRef := some connector }
        modify fun s =>
          match s.scope with
          | frame :: outer => { s with scope := frame.addPort made :: outer }
          | [] => s
        return some made
      | .on node =>
        let made : Port α := { id, side, label }
        match (← get).addPort? node made with
        | some s =>
          set s
          return some made
        | none =>
          warn s!"Node '{node}' not found for port '{id}'" opening
          return none : Reader α (Option (Port α))) (facing body ts s) = .ok p s') ↔
      ∃ s₁, (Clause.port opening id target side (trailing ts).1).act input.depthLimit s = some s₁ ∧
        s' = facing body (trailing ts).2 s₁ := by
  rw [bind_of_ok (trailingLabel_facing hin hs s)]
  cases target with
  | inside connector =>
    simp only [Clause.act, hscope connector rfl, Bool.false_eq_true, if_false, Option.some.injEq,
      exists_eq_left']
    match hsc : s.scope with
    | [] => simp [hsc] at hscope
    | frame :: outer =>
      constructor
      · rintro ⟨p, h⟩
        rw [bind_of_ok (modify_run _ _), facing_scope, hsc] at h
        cases h
        simp [State.addInner, hsc, facing]
      · rintro rfl
        rw [bind_of_ok (modify_run _ _), facing_scope, hsc]
        simp only [State.addInner, hsc]
        exact ⟨_, rfl⟩
  | on node =>
    simp only [Clause.act, Option.some.injEq, exists_eq_left']
    rw [bind_of_ok (get_run _), addPort?_facing]
    cases s.addPort? node { id, side, label := (trailing ts).1 } with
    | none =>
      constructor
      · rintro ⟨p, h⟩
        cases h
        rfl
      · rintro rfl
        exact ⟨_, rfl⟩
    | some s₁ =>
      constructor
      · rintro ⟨p, h⟩
        cases h
        rfl
      · rintro rfl
        exact ⟨_, rfl⟩

omit [Scalar α] in
/-- A port is read exactly where its clause stands, and placed where it belongs. -/
theorem port_ok {ts : List Token} (hs : ts <:+ body) {s s' : State α} :
    (∃ p, port input (facing body ts s) = .ok p s') ↔
      ∃ p o i c word o' i' c' t rest target side,
        ts = p :: o :: i :: c :: word :: o' :: i' :: c' :: t :: rest ∧ p.kind = .portWord ∧
        Brackets o i c ∧ word.kind = targetKind target ∧ Brackets o' i' c' ∧
        i'.text = targetName target ∧ t.kind = .side ∧ Side.ofName? t.text = some side ∧
        ∃ s₁, (Clause.port p i.text target side (trailing rest).1).act input.depthLimit s =
          some s₁ ∧ s' = facing body (trailing rest).2 s₁ := by
  constructor
  · rintro ⟨r, h⟩
    rw [port, bind_ok] at h
    obtain ⟨p, s₁, h₁, h⟩ := h
    obtain ⟨ts, rfl, hp, rfl⟩ := (expectKind_ok hin (by decide) hs).mp h₁
    have hs₁ := suffix_of_cons hs
    obtain ⟨o, i, c, ts, rfl, hb, h⟩ := (brackets_ok hin hs₁ (opening_ok hin hs₁ s _)).mp h
    have hs₂ := (List.suffix_append [o, i, c] ts).trans hs₁
    rw [bind_ok] at h
    obtain ⟨target, s₂, h₂, h⟩ := h
    obtain ⟨word, o', i', c', ts, rfl, hw, hb', hi', hscope, rfl⟩ := (portTarget_ok hin hs₂).mp h₂
    have hs₃ := (List.suffix_append [word, o', i', c'] ts).trans hs₂
    rw [bind_ok] at h
    obtain ⟨t, s₃, h₃, h⟩ := h
    obtain ⟨ts, rfl, ht, rfl⟩ := (expect_ok hin (by decide) hs₃).mp h₃
    cases hside : Side.ofName? t.text with
    | none => simp [hside, bind_ok] at h
    | some side =>
      simp only [hside] at h
      have hinner : ∀ connector, target = .inside connector → s.scope.isEmpty = false :=
        fun connector he => hscope (by rw [hw, he]; rfl)
      have h' := (port_tail hin (suffix_of_cons hs₃) hinner).mp ⟨r, h⟩
      exact ⟨p, o, i, c, word, o', i', c', t, ts, target, side, rfl, hp, hb, hw, hb', hi', ht, hside,
        h'⟩
  · rintro ⟨p, o, i, c, word, o', i', c', t, rest, target, side, rfl, hp, hb, hw, hb', hi', ht,
      hside, s₁, hact, rfl⟩
    have hs₁ := suffix_of_cons hs
    have hs₂ := (List.suffix_append [o, i, c] (word :: o' :: i' :: c' :: t :: rest)).trans hs₁
    have hs₃ := (List.suffix_append [word, o', i', c'] (t :: rest)).trans hs₂
    have hinner : ∀ connector, target = .inside connector → s.scope.isEmpty = false := by
      rintro connector rfl
      cases hsc : s.scope.isEmpty with
      | false => rfl
      | true => simp [Clause.act, hsc] at hact
    have hscope : word.kind = .withWord → s.scope.isEmpty = false := by
      intro hword
      cases target with
      | on node => simp [hword, targetKind] at hw
      | inside connector => exact hinner connector rfl
    obtain ⟨r, htail⟩ := (@port_tail _ _ _ _ hin _ (suffix_of_cons hs₃) p i.text target s
      (facing body (trailing rest).2 s₁) hinner side).mpr ⟨s₁, hact, rfl⟩
    refine ⟨r, ?_⟩
    rw [port, bind_of_ok (expectKind_cons hin (by decide) hs hp s)]
    refine (brackets_ok hin hs₁ (opening_ok hin hs₁ s _)).mpr ⟨o, i, c, _, rfl, hb, ?_⟩
    refine (bind_of_ok ((portTarget_ok hin hs₂).mpr
      ⟨word, o', i', c', _, rfl, hw, hb', hi', hscope, rfl⟩)).trans ?_
    refine (bind_of_ok (expect_cons hin (by decide) hs₃ ht s)).trans ?_
    simp only [hside]
    exact htail

/-! ## Components -/

/-- Once a block that was opened is read and closed, the reader is in the second state. -/
def Finished (block : Reader α Unit) (body : List Token) (opens : Bool) (ts : List Token)
    (s s' : State α) : Prop :=
  if opens then
    ∃ t rest s₂, t :: rest <:+ body ∧ t.kind = .rightBrace ∧
      block (facing body ts s) = .ok () (facing body (t :: rest) s₂) ∧ s' = facing body rest s₂.close
  else s' = facing body ts s

/-- A block that ends among the tokens of the input. -/
def Inside (block : Reader α Unit) (body : List Token) : Prop :=
  ∀ ts s s', ts <:+ body → block (facing body ts s) = .ok () s' →
    ∃ ts₂ s₂, ts₂ <:+ body ∧ s' = facing body ts₂ s₂

omit hin [Scalar α] in
/-- A component that would be too deep is noted, and its block is read all the same. -/
theorem componentRest_eq (input : Input) (block : Reader α Unit) (opening : Token)
    (id label : String) (place : Option (α × α)) (s : State α) :
    componentRest input block opening id label place s =
      blockPart input block (written id label place) (withinLimit input.depthLimit s.scope.length)
        s!"Expected '\x7d' to close node '{id}'" (noted input.depthLimit opening id s) := by
  refine (bind_of_ok (get_run _)).trans ?_
  cases hl : input.depthLimit with
  | none => rfl
  | some limit =>
    by_cases hd : s.scope.length < limit
    · simp only [withinLimit, noted, hd, decide_true, Bool.not_true, Bool.false_eq_true, if_false,
        if_true]
      rfl
    · simp only [withinLimit, noted, hd, decide_false, Bool.not_false, Bool.false_eq_true,
        if_false, if_true]
      rfl

omit hin [Scalar α] in
theorem componentRest_facing (input : Input) (block : Reader α Unit) (opening : Token)
    (id label : String) (place : Option (α × α)) (body ts : List Token) (s : State α) :
    componentRest input block opening id label place (facing body ts s) =
      blockPart input block (written id label place) (withinLimit input.depthLimit s.scope.length)
        s!"Expected '\x7d' to close node '{id}'"
        (facing body ts (noted input.depthLimit opening id s)) := by
  have hnoted : noted input.depthLimit opening id (facing body ts s) =
      facing body ts (noted input.depthLimit opening id s) := by
    rw [noted, noted, facing_scope]
    split <;> rfl
  rw [componentRest_eq, facing_scope, hnoted]

omit [Scalar α] in
theorem blockPart_open (block : Reader α Unit) (made : Component α) (attached : Bool)
    (m : String) {t : Token} {ts : List Token} (hs : t :: ts <:+ body) (hk : t.kind = .leftBrace)
    (s : State α) :
    blockPart input block made attached m (facing body (t :: ts) s) = (do
      block
      let _ ← expect input .rightBrace m
      let read := ((← get).scope.head?.map (·.tree [])).getD (.node made [])
      modify State.close
      return read : Reader α (ComponentTree α)) (facing body ts (s.enter made attached)) := by
  rw [blockPart, bind_of_ok (kind_facing hin hs s)]
  simp only [headKind, hk, beq_self_eq_true, if_true]
  rw [bind_of_ok (advance_facing hin hs s), bind_of_ok (modify_run _ _), enter_facing]

omit [Scalar α] in
theorem blockPart_closed (block : Reader α Unit) (made : Component α) (attached : Bool)
    (m : String) {ts : List Token} (hs : ts <:+ body) (hk : headKind ts ≠ .leftBrace)
    (s : State α) :
    blockPart input block made attached m (facing body ts s) =
      .ok (.node made []) (facing body ts (if attached then s.attach (.node made []) else s)) := by
  rw [blockPart, bind_of_ok (kind_facing hin hs s)]
  simp only [beq_eq_false_iff_ne.mpr hk, Bool.false_eq_true, if_false]
  cases attached with
  | true =>
    simp only [if_true]
    rw [bind_of_ok (modify_run _ _), attach_facing, pure_run]
  | false => rfl

omit [Scalar α] in
private theorem blockPart_ok {block : Reader α Unit} (hblock : Inside block body)
    {ts : List Token} (hs : ts <:+ body) {made : Component α} {attached : Bool} {m : String}
    {s s' : State α} :
    (∃ t, blockPart input block made attached m (facing body ts s) = .ok t s') ↔
      Finished block body (brace ts).1 (brace ts).2
        (if (brace ts).1 then s.enter made attached
          else if attached then s.attach (.node made []) else s) s' := by
  by_cases hk : headKind ts = .leftBrace
  · match ts with
    | [] => cases hk
    | t :: ts =>
      have hs' := suffix_of_cons hs
      have hb : brace (t :: ts) = (true, ts) := by rw [brace, if_pos (show t.kind = _ from hk)]
      rw [hb, blockPart_open hin _ _ _ _ hs hk]
      simp only [if_true, Finished]
      constructor
      · rintro ⟨r, h⟩
        rw [bind_ok] at h
        obtain ⟨⟨⟩, s₁, h₁, h⟩ := h
        obtain ⟨ts₂, s₂, hs₂, rfl⟩ := hblock _ _ _ hs' h₁
        rw [bind_ok] at h
        obtain ⟨t', s₃, h₃, h⟩ := h
        obtain ⟨rest, rfl, ht', rfl⟩ := (expect_ok hin (by decide) hs₂).mp h₃
        refine ⟨t', rest, s₂, hs₂, ht', h₁, ?_⟩
        rw [← close_facing]
        cases h
        rfl
      · rintro ⟨t', rest, s₂, hs₂, ht', h₁, rfl⟩
        rw [bind_of_ok h₁, bind_of_ok (expect_cons hin (by decide) hs₂ ht' s₂), ← close_facing]
        exact ⟨_, rfl⟩
  · have hb : brace ts = (false, ts) := by
      cases ts with
      | nil => rfl
      | cons t ts => rw [brace, if_neg (show t.kind ≠ _ from hk)]
    rw [hb, blockPart_closed hin _ _ _ _ hs hk]
    simp only [Bool.false_eq_true, if_false, Finished]
    constructor
    · rintro ⟨r, h⟩
      cases h
      rfl
    · rintro rfl
      exact ⟨_, rfl⟩

theorem component_eq (block : Reader α Unit) {o i c : Token} {rest rest' : List Token}
    {place : Option (α × α)} (hs : o :: i :: c :: rest <:+ body) (hb : Brackets o i c)
    (hp : Placed (rest.dropWhile inHead) place rest') (s : State α) :
    ∃ m, component input block (facing body (o :: i :: c :: rest) s) =
      blockPart input block (written i.text (joined (rest.takeWhile inHead)) place)
        (withinLimit input.depthLimit s.scope.length) m
        (facing body rest' (if withinLimit input.depthLimit s.scope.length then s else
          s.warned (s!"Node '{i.text}' exceeds maximum nesting depth of {input.depthLimit.getD 0} "
            ++ "and was dropped") o)) := by
  have hs₁ := suffix_of_cons hs
  have hs₂ := suffix_of_cons hs₁
  have hs₃ := suffix_of_cons hs₂
  have hplace := (position_ok hin ((List.dropWhile_suffix inHead).trans hs₃) (s := s)).mpr
    ⟨rest', hp, rfl⟩
  rw [component, bind_of_ok (expectKind_cons hin (by decide) hs hb.opening s),
    bind_of_ok (expect_cons hin (by decide) hs₁ hb.inner s)]
  refine ⟨s!"Expected '\x7d' to close node '{i.text}'", ?_⟩
  refine (bind_of_ok (expect_cons hin (by decide) hs₂ hb.closing s)).trans ?_
  refine (bind_of_ok (collect_facing hin hs₃ s)).trans ?_
  refine (bind_of_ok hplace).trans ?_
  exact componentRest_facing input block o i.text _ place body rest' s

theorem component_ok {block : Reader α Unit} (hblock : Inside block body) {ts : List Token}
    (hs : ts <:+ body) {s s' : State α} :
    (∃ t, component input block (facing body ts s) = .ok t s') ↔
      ∃ o i c rest place rest', ts = o :: i :: c :: rest ∧ Brackets o i c ∧
        Placed (rest.dropWhile inHead) place rest' ∧
        ∃ s₁, (Clause.component o i.text (joined (rest.takeWhile inHead)) place
          (brace rest').1).act input.depthLimit s = some s₁ ∧
          Finished block body (brace rest').1 (brace rest').2 s₁ s' := by
  constructor
  · rintro ⟨r, h⟩
    have h' := h
    rw [component] at h'
    obtain ⟨o, i, c, rest, rfl, hb, h'⟩ :=
      (brackets_ok hin hs (fun _ _ => expectKind_ok hin (by decide) hs)).mp h'
    have hs₁ := (List.suffix_append [o, i, c] rest).trans hs
    rw [bind_of_ok (collect_facing hin hs₁ s), bind_ok] at h'
    obtain ⟨place, s₁, h₁, -⟩ := h'
    have hd := (List.dropWhile_suffix inHead).trans hs₁
    obtain ⟨rest', hp, -⟩ := (position_ok hin hd).mp h₁
    obtain ⟨m, he⟩ := component_eq hin _ hs hb hp s
    rw [he] at h
    have hfin := (blockPart_ok hin hblock (hp.suffix.trans hd)).mp ⟨r, h⟩
    exact ⟨o, i, c, rest, place, rest', rfl, hb, hp, _, rfl, hfin⟩
  · rintro ⟨o, i, c, rest, place, rest', rfl, hb, hp, s₁, hact, hfin⟩
    have hd := (List.dropWhile_suffix inHead).trans ((List.suffix_append [o, i, c] rest).trans hs)
    obtain ⟨m, he⟩ := component_eq hin _ hs hb hp s
    rw [he]
    refine (blockPart_ok hin hblock (hp.suffix.trans hd)).mpr ?_
    cases hact
    exact hfin

end Reader

end ComponentDiagram.Grammar
