import ComponentDiagram.Proofs.Grammar.Clause
import ComponentDiagram.Proofs.Model.Forest

/-! What has been read so far, listed in pre-order. A clause adds a component at the end of the list
or a port to one component of it. -/
namespace ComponentDiagram.Grammar

variable {α : Type}

/-- An open component and the finished ones inside it, in pre-order. -/
def Frame.components (frame : Frame α) : List (Component α) :=
  frame.component :: Tree.values frame.children

/-- All components so far in pre-order, the open ones included. -/
def State.components (s : State α) : List (Component α) :=
  Tree.values s.roots ++ s.scope.reverse.flatMap Frame.components

/-- The component with one more port. -/
def withPort (port : Port α) (c : Component α) : Component α :=
  { c with ports := c.ports ++ [port] }

/-- One component with the id has one port more. -/
def OnePortMore (id : String) (port : Port α) (cs cs' : List (Component α)) : Prop :=
  ∃ l c r, cs = l ++ c :: r ∧ c.id = id ∧ cs' = l ++ withPort port c :: r

theorem OnePortMore.context {id : String} {port : Port α} {cs cs' : List (Component α)}
    (h : OnePortMore id port cs cs') (a b : List (Component α)) :
    OnePortMore id port (a ++ cs ++ b) (a ++ cs' ++ b) := by
  obtain ⟨l, c, r, rfl, hc, rfl⟩ := h
  exact ⟨a ++ l, c, r ++ b, by simp, hc, by simp⟩

/-! ## Where a port goes -/

theorem addToOpen?_some {id : String} {port : Port α} {frames frames' : List (Frame α)}
    (h : addToOpen? id port frames = some frames') : ∃ l frame r, frames = l ++ frame :: r ∧
      frame.component.id = id ∧ frames' = l ++ frame.addPort port :: r := by
  induction frames generalizing frames' with
  | nil => cases h
  | cons frame outer ih =>
    rw [addToOpen?] at h
    split at h
    · rename_i hid
      cases h
      exact ⟨[], frame, outer, rfl, beq_iff_eq.mp hid, rfl⟩
    · obtain ⟨rest, hrest, rfl⟩ := Option.map_eq_some_iff.mp h
      obtain ⟨l, f, r, rfl, hf, rfl⟩ := ih hrest
      exact ⟨frame :: l, f, r, rfl, hf, rfl⟩

theorem addInside?_some {id : String} {port : Port α} {frames frames' : List (Frame α)}
    (h : addInside? id port frames = some frames') : ∃ l frame r children,
      frames = l ++ frame :: r ∧ addToFinished? id port frame.children = some children ∧
        frames' = l ++ { frame with children } :: r := by
  induction frames generalizing frames' with
  | nil => cases h
  | cons frame inner ih =>
    rw [addInside?] at h
    split at h
    · split at h
      · rename_i children hc
        cases h
        exact ⟨[], frame, inner, children, rfl, hc, rfl⟩
      · obtain ⟨rest, hrest, rfl⟩ := Option.map_eq_some_iff.mp h
        obtain ⟨l, f, r, children, rfl, hf, rfl⟩ := ih hrest
        exact ⟨frame :: l, f, r, children, rfl, hf, rfl⟩
    · cases h

theorem addToFinished?_values {id : String} {port : Port α} {ts ts' : List (ComponentTree α)}
    (h : addToFinished? id port ts = some ts') :
    OnePortMore id port (Tree.values ts) (Tree.values ts') := by
  obtain ⟨l, c, r, hl, hc, hr⟩ := Tree.forestModifyFirst?_values h
  exact ⟨l, c, r, hl, beq_iff_eq.mp hc, hr⟩

/-- A port goes to an open component, to a finished one inside an open one, or to a finished one
outside all of them. -/
theorem State.addPort?_some {s s' : State α} {id : String} {port : Port α}
    (h : s.addPort? id port = some s') :
    (∃ l frame r, s.scope = l ++ frame :: r ∧ frame.component.id = id ∧
      s' = { s with scope := l ++ frame.addPort port :: r }) ∨
    (∃ roots, addToFinished? id port s.roots = some roots ∧ s' = { s with roots }) ∨
    (∃ l frame r children, s.scope = l ++ frame :: r ∧
      addToFinished? id port frame.children = some children ∧
      s' = { s with scope := l ++ { frame with children } :: r }) := by
  rw [State.addPort?] at h
  split at h
  · cases h
  · split at h
    · rename_i hs
      cases h
      obtain ⟨l, frame, r, hl, hid, rfl⟩ := addToOpen?_some hs
      exact .inl ⟨l, frame, r, hl, hid, rfl⟩
    · split at h
      · rename_i hr
        cases h
        exact .inr (.inl ⟨_, hr, rfl⟩)
      · obtain ⟨frames, hf, rfl⟩ := Option.map_eq_some_iff.mp h
        obtain ⟨l, frame, r, children, hl, hc, rfl⟩ := addInside?_some hf
        refine .inr (.inr ⟨r.reverse, frame, l.reverse, children, ?_, hc, ?_⟩)
        · rw [← List.reverse_reverse s.scope, hl]
          simp
        · simp

/-! ## The list of components -/

theorem components_scope (s : State α) {l r : List (Frame α)} {frame : Frame α}
    (h : s.scope = l ++ frame :: r) : s.components =
      (Tree.values s.roots ++ r.reverse.flatMap Frame.components) ++ frame.components ++
        l.reverse.flatMap Frame.components := by
  rw [State.components, h]
  simp

theorem components_addPort? {s s' : State α} {id : String} {port : Port α}
    (h : s.addPort? id port = some s') : OnePortMore id port s.components s'.components := by
  rcases State.addPort?_some h with ⟨l, frame, r, hs, hid, rfl⟩ | ⟨roots, hr, rfl⟩ |
      ⟨l, frame, r, children, hs, hc, rfl⟩
  · rw [components_scope s hs, components_scope (s := { s with scope := _ }) rfl]
    exact OnePortMore.context ⟨[], frame.component, _, rfl, hid, rfl⟩ _ _
  · exact (addToFinished?_values hr).context [] _
  · rw [components_scope s hs, components_scope (s := { s with scope := _ }) rfl]
    obtain ⟨a, c, b, ha, hc, hb⟩ := addToFinished?_values hc
    refine OnePortMore.context ⟨frame.component :: a, c, b, ?_, hc, ?_⟩ _ _
    · rw [Frame.components, ha, List.cons_append]
    · rw [Frame.components, hb, List.cons_append]

theorem components_attach (s : State α) (t : ComponentTree α) :
    (s.attach t).components = s.components ++ Tree.values [t] := by
  obtain ⟨_, scope, _, _, _⟩ := s
  cases scope with
  | nil => simp [State.attach, State.components, Tree.values_append]
  | cons frame outer =>
    simp [State.attach, State.components, Frame.components, Tree.values_append]

theorem components_enter (s : State α) (c : Component α) (attached : Bool) :
    (s.enter c attached).components = s.components ++ [c] := by
  simp [State.enter, State.components, Frame.components, Tree.values, Tree.forestSubtrees]

theorem components_close {s : State α} (h : ∀ frame ∈ s.scope.head?, frame.attached = true) :
    s.close.components = s.components := by
  obtain ⟨index, scope, roots, connectors, diagnostics⟩ := s
  cases scope with
  | nil => rfl
  | cons frame outer =>
    simp only [State.close, h frame rfl, if_true, components_attach]
    simp [State.components, Frame.components, Frame.tree, Tree.values_node]

theorem components_addInner {s : State α} {frame : Frame α} {outer : List (Frame α)}
    (h : s.scope = frame :: outer) (port : Port α) :
    OnePortMore frame.component.id port s.components (s.addInner port).components := by
  have hs : s.addInner port = { s with scope := frame.addPort port :: outer } := by
    rw [State.addInner, h]
  have hadded := components_scope (s.addInner port) (l := []) (by rw [hs]; rfl)
  rw [components_scope s (l := []) h, hadded, hs]
  exact OnePortMore.context ⟨[], frame.component, _, rfl, rfl, rfl⟩ _ _

/-! ## What a clause adds, where nothing is dropped -/

/-- Nothing has been dropped so far. -/
structure State.IsClean (s : State α) : Prop where
  diagnostics : s.diagnostics = []
  attached : ∀ frame ∈ s.scope, frame.attached = true

theorem isClean_empty : ({} : State α).IsClean := ⟨rfl, by simp⟩

/-- A clause adds a connector, a component, a port or nothing. -/
inductive Adds : Clause α → State α → State α → Prop
  | newline {s} : Adds .newline s s
  | closing {s s'} : s'.components = s.components → s'.connectors = s.connectors →
      Adds .closing s s'
  | edge {name iface source kind target label s s'} : s'.components = s.components →
      s'.connectors = (s.connect name iface source kind target label).connectors →
      Adds (.edge name iface source kind target label) s s'
  | component {opening id label place opens s s'} :
      s'.components = s.components ++ [written id label place] →
      s'.connectors = s.connectors → Adds (.component opening id label place opens) s s'
  | port {opening id target side label owner s s'} :
      OnePortMore owner ⟨id, side, label, none, match target with
        | .inside connector => some connector
        | .on _ => none⟩ s.components s'.components →
      s'.connectors = s.connectors → Adds (.port opening id target side label) s s'

private theorem warned_ne_nil {s : State α} {m : String} {t : Token} :
    (s.warned m t).diagnostics ≠ [] := by
  simp [State.warned]

theorem attach_diagnostics (s : State α) (t : ComponentTree α) :
    (s.attach t).diagnostics = s.diagnostics := by
  unfold State.attach
  split <;> rfl

theorem attach_connectors (s : State α) (t : ComponentTree α) :
    (s.attach t).connectors = s.connectors := by
  unfold State.attach
  split <;> rfl

theorem close_connectors (s : State α) : s.close.connectors = s.connectors := by
  unfold State.close
  split
  · split
    · exact attach_connectors ..
    · rfl
  · rfl

theorem close_diagnostics (s : State α) : s.close.diagnostics = s.diagnostics := by
  unfold State.close
  split
  · split
    · exact attach_diagnostics ..
    · rfl
  · rfl

theorem addPort?_diagnostics {s s' : State α} {id : String} {port : Port α}
    (h : s.addPort? id port = some s') : s'.diagnostics = s.diagnostics := by
  rcases State.addPort?_some h with ⟨_, _, _, _, _, rfl⟩ | ⟨_, _, rfl⟩ | ⟨_, _, _, _, _, _, rfl⟩ <;>
    rfl

theorem addPort?_connectors {s s' : State α} {id : String} {port : Port α}
    (h : s.addPort? id port = some s') : s'.connectors = s.connectors := by
  rcases State.addPort?_some h with ⟨_, _, _, _, _, rfl⟩ | ⟨_, _, rfl⟩ | ⟨_, _, _, _, _, _, rfl⟩ <;>
    rfl

theorem addInner_connectors (s : State α) (port : Port α) :
    (s.addInner port).connectors = s.connectors := by
  unfold State.addInner
  split <;> rfl

theorem addInner_diagnostics (s : State α) (port : Port α) :
    (s.addInner port).diagnostics = s.diagnostics := by
  unfold State.addInner
  split <;> rfl

/-- Diagnostics are kept. -/
theorem act_diagnostics {limit : Option Nat} {c : Clause α} {s s' : State α}
    (h : c.act limit s = some s') : s.diagnostics <+: s'.diagnostics := by
  cases c with
  | newline => cases h; exact List.prefix_rfl
  | closing =>
    simp only [Clause.act] at h
    split at h <;> cases h
    exact ⟨[], by rw [close_diagnostics, List.append_nil]⟩
  | skipped t => cases h; exact List.prefix_append ..
  | edge => cases h; exact List.prefix_rfl
  | component opening id label place opens =>
    simp only [Clause.act, Option.some.injEq] at h
    subst h
    split <;> split <;> simp [State.enter, attach_diagnostics, State.warned]
  | port opening id target side label =>
    cases target with
    | inside connector =>
      simp only [Clause.act] at h
      split at h <;> cases h
      exact ⟨[], by rw [addInner_diagnostics, List.append_nil]⟩
    | on node =>
      simp only [Clause.act, Option.some.injEq] at h
      subst h
      cases hp : s.addPort? node { id, side, label } with
      | none => simp [State.warned]
      | some s' => simp [addPort?_diagnostics hp]

theorem actAll_diagnostics {limit : Option Nat} {cs : List (Clause α)} {s s' : State α}
    (h : actAll limit cs s = some s') : s.diagnostics <+: s'.diagnostics := by
  induction cs generalizing s with
  | nil => cases h; exact List.prefix_rfl
  | cons c cs ih =>
    obtain ⟨s₁, h₁, h₂⟩ := Option.bind_eq_some_iff.mp h
    exact (act_diagnostics h₁).trans (ih h₂)

/-- A token that is skipped leaves a diagnostic. -/
theorem not_skipped {limit : Option Nat} {cs : List (Clause α)} {s s' : State α}
    (h : actAll limit cs s = some s') (hd : s'.diagnostics = []) (t : Token) :
    .skipped t ∉ cs := by
  intro ht
  obtain ⟨before, after, rfl⟩ := List.append_of_mem ht
  rw [actAll_append] at h
  obtain ⟨s₁, -, h⟩ := Option.bind_eq_some_iff.mp h
  have hkept := actAll_diagnostics (show actAll limit after _ = some s' from h)
  rw [hd, List.prefix_nil] at hkept
  exact warned_ne_nil hkept

theorem attached_attach {s : State α} (h : ∀ frame ∈ s.scope, frame.attached = true)
    (t : ComponentTree α) : ∀ frame ∈ (s.attach t).scope, frame.attached = true := by
  unfold State.attach
  split
  · rename_i frame outer hs
    rw [hs] at h
    simpa using h
  · exact h

theorem attached_close {s : State α} (h : ∀ frame ∈ s.scope, frame.attached = true) :
    ∀ frame ∈ s.close.scope, frame.attached = true := by
  unfold State.close
  split
  · rename_i frame outer hscope
    have hout : ∀ f ∈ outer, f.attached = true := fun f hf => h f (by simp [hscope, hf])
    split
    · exact attached_attach (s := { s with scope := outer }) hout _
    · exact hout
  · exact h

private theorem attached_replace {l r : List (Frame α)} {frame frame' : Frame α}
    (h : ∀ f ∈ l ++ frame :: r, f.attached = true) (hf : frame'.attached = frame.attached) :
    ∀ f ∈ l ++ frame' :: r, f.attached = true := by
  have hframe := h frame (by simp)
  intro f hmem
  rcases List.mem_append.mp hmem with hmem | hmem
  · exact h f (List.mem_append_left _ hmem)
  · rcases List.mem_cons.mp hmem with rfl | hmem
    · rw [hf, hframe]
    · exact h f (by simp [hmem])

theorem attached_addInner {s : State α} (h : ∀ frame ∈ s.scope, frame.attached = true)
    (port : Port α) : ∀ frame ∈ (s.addInner port).scope, frame.attached = true := by
  unfold State.addInner
  split
  · rename_i frame outer hscope
    rw [hscope] at h
    exact attached_replace (l := []) h rfl
  · exact h

theorem attached_addPort? {s s' : State α} (h : ∀ frame ∈ s.scope, frame.attached = true)
    {id : String} {port : Port α} (hp : s.addPort? id port = some s') :
    ∀ frame ∈ s'.scope, frame.attached = true := by
  rcases State.addPort?_some hp with ⟨l, f, r, hl, -, rfl⟩ | ⟨_, _, rfl⟩ |
      ⟨l, f, r, _, hl, -, rfl⟩
  · rw [hl] at h
    exact attached_replace h rfl
  · exact h
  · rw [hl] at h
    exact attached_replace h rfl

/-- What a clause adds without a diagnostic. -/
theorem act_clean {limit : Option Nat} {c : Clause α} {s s' : State α} (hs : s.IsClean)
    (h : c.act limit s = some s') (hd : s'.diagnostics = []) : s'.IsClean ∧ Adds c s s' := by
  cases c with
  | newline => cases h; exact ⟨hs, .newline⟩
  | closing =>
    simp only [Clause.act] at h
    split at h <;> cases h
    have hhead : ∀ frame ∈ s.scope.head?, frame.attached = true :=
      fun frame hf => hs.attached frame (List.mem_of_mem_head? hf)
    exact ⟨⟨hd, attached_close hs.attached⟩,
      .closing (components_close hhead) (close_connectors s)⟩
  | skipped t => cases h; exact absurd hd warned_ne_nil
  | edge => cases h; exact ⟨⟨hs.diagnostics, hs.attached⟩, .edge rfl rfl⟩
  | component opening id label place opens =>
    simp only [Clause.act, Option.some.injEq] at h
    subst h
    cases ha : withinLimit limit s.scope.length with
    | false =>
      rw [ha] at hd
      cases opens <;> exact absurd hd warned_ne_nil
    | true =>
      simp only [if_true]
      cases opens with
      | true =>
        refine ⟨⟨hs.diagnostics, ?_⟩, .component (components_enter ..) rfl⟩
        exact List.forall_mem_cons.mpr ⟨rfl, hs.attached⟩
      | false =>
        refine ⟨⟨(attach_diagnostics ..).trans hs.diagnostics, attached_attach hs.attached _⟩,
          .component (components_attach ..) (attach_connectors ..)⟩
  | port opening id target side label =>
    cases target with
    | inside connector =>
      simp only [Clause.act] at h
      split at h <;> cases h
      cases hscope : s.scope with
      | nil => simp_all
      | cons frame outer =>
        exact ⟨⟨hd, attached_addInner hs.attached _⟩,
          .port (components_addInner hscope _) (addInner_connectors ..)⟩
    | on node =>
      simp only [Clause.act, Option.some.injEq] at h
      cases hp : s.addPort? node { id, side, label } with
      | none =>
        rw [hp] at h
        subst h
        exact absurd hd warned_ne_nil
      | some t =>
        rw [hp] at h
        cases h
        exact ⟨⟨hd, attached_addPort? hs.attached hp⟩,
          .port (components_addPort? hp) (addPort?_connectors hp)⟩

end ComponentDiagram.Grammar
