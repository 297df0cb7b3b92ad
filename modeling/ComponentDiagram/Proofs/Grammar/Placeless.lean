import ComponentDiagram.Proofs.Grammar.Unplaced
import ComponentDiagram.Proofs.Model.Forest

/-! Where components are placed is told by themselves, and by nothing else that is read. -/
namespace ComponentDiagram

variable {α : Type}

/-- A component that is placed nowhere. -/
def Component.placeless (c : Component α) : Component α := { c with x := none, y := none }

/-- A document but for the positions of its components. -/
def Document.placeless (doc : Document α) : Document α :=
  { doc with roots := Tree.forestMap Component.placeless doc.roots }

namespace Grammar

/-- A clause but for the position it gives. -/
def Clause.placeless : Clause α → Clause α
  | .component opening id label _ opens => .component opening id label none opens
  | c => c

def Frame.placeless (frame : Frame α) : Frame α :=
  { frame with
    component := frame.component.placeless
    children := Tree.forestMap Component.placeless frame.children }

/-- A state but for the positions of its components. -/
def State.placeless (s : State α) : State α :=
  { s with
    scope := s.scope.map Frame.placeless
    roots := Tree.forestMap Component.placeless s.roots }

theorem placeless_document (s : State α) (type : DiagramType) (hs : s.scope = []) :
    (s.document type).placeless =
      { type, roots := s.placeless.roots, connectors := s.connectors,
        diagnostics := s.diagnostics } := by
  simp [State.document, State.forest, hs, openRoot, Document.placeless, State.placeless]

theorem placeless_warned (s : State α) (m : String) (t : Token) :
    (s.warned m t).placeless = s.placeless.warned m t := rfl

theorem placeless_attach (s : State α) (t : ComponentTree α) :
    (s.attach t).placeless = s.placeless.attach (Tree.map Component.placeless t) := by
  obtain ⟨_, scope, roots, _, _⟩ := s
  cases scope with
  | nil => simp [State.attach, State.placeless, Tree.forestMap_append, Tree.forestMap]
  | cons frame outer =>
    simp [State.attach, State.placeless, Frame.placeless, Tree.forestMap_append, Tree.forestMap]

theorem placeless_close (s : State α) : s.close.placeless = s.placeless.close := by
  obtain ⟨index, scope, roots, connectors, diagnostics⟩ := s
  cases scope with
  | nil => rfl
  | cons frame outer =>
    simp only [State.close, State.placeless, List.map_cons, Frame.placeless]
    cases frame.attached with
    | true =>
      simp only [if_true]
      refine (placeless_attach ⟨index, outer, roots, connectors, diagnostics⟩ _).trans ?_
      simp [State.placeless, Frame.tree, Tree.map]
    | false => rfl

theorem placeless_addInner (s : State α) (port : Port α) :
    (s.addInner port).placeless = s.placeless.addInner port := by
  obtain ⟨_, scope, _, _, _⟩ := s
  cases scope <;> rfl

/-! ## Where a port goes -/

private theorem addToFinished?_placeless (id : String) (port : Port α)
    (ts : List (ComponentTree α)) :
    addToFinished? id port (Tree.forestMap Component.placeless ts) =
      (addToFinished? id port ts).map (Tree.forestMap Component.placeless) := by
  rw [addToFinished?]
  refine Tree.forestModifyFirst?_map ?_ ?_ ts
  · exact fun _ => rfl
  · exact fun _ => rfl

private theorem addToOpen?_placeless (id : String) (port : Port α) (frames : List (Frame α)) :
    addToOpen? id port (frames.map Frame.placeless) =
      (addToOpen? id port frames).map (List.map Frame.placeless) := by
  induction frames with
  | nil => rfl
  | cons frame outer ih =>
    have hid : frame.placeless.component.id = frame.component.id := rfl
    rw [List.map_cons, addToOpen?, addToOpen?, hid]
    split
    · rfl
    · rw [ih, Option.map_map, Option.map_map]
      rfl

private theorem addInside?_placeless (id : String) (port : Port α) (frames : List (Frame α)) :
    addInside? id port (frames.map Frame.placeless) =
      (addInside? id port frames).map (List.map Frame.placeless) := by
  induction frames with
  | nil => rfl
  | cons frame inner ih =>
    have hattached : frame.placeless.attached = frame.attached := rfl
    have hchildren : frame.placeless.children =
        Tree.forestMap Component.placeless frame.children := rfl
    rw [List.map_cons, addInside?, addInside?, hattached, hchildren, addToFinished?_placeless]
    cases frame.attached with
    | false => rfl
    | true =>
      simp only [if_true]
      cases addToFinished? id port frame.children with
      | some children => rfl
      | none =>
        simp only [Option.map_none, ih, Option.map_map]
        rfl

theorem placeless_addPort? (s : State α) (id : String) (port : Port α) :
    (s.addPort? id port).map State.placeless = s.placeless.addPort? id port := by
  have hscope : s.placeless.scope = s.scope.map Frame.placeless := rfl
  have hroots : s.placeless.roots = Tree.forestMap Component.placeless s.roots := rfl
  unfold State.addPort?
  split
  · rfl
  · rw [hscope, hroots, addToOpen?_placeless, addToFinished?_placeless, ← List.map_reverse,
      addInside?_placeless]
    cases addToOpen? id port s.scope with
    | some scope => rfl
    | none =>
      cases addToFinished? id port s.roots with
      | some roots => rfl
      | none =>
        simp only [Option.map_none, Option.map_map]
        congr 1
        funext frames
        simp [State.placeless]

/-! ## What clauses do -/

/-- A clause does the same wherever components are placed. -/
theorem act_placeless (limit : Option Nat) (c : Clause α) (s : State α) :
    (c.act limit s).map State.placeless = c.placeless.act limit s.placeless := by
  have hempty : s.placeless.scope.isEmpty = s.scope.isEmpty := List.isEmpty_map
  cases c with
  | newline => rfl
  | skipped t => exact congrArg some (placeless_warned s _ t)
  | edge => rfl
  | closing =>
    simp only [Clause.act, Clause.placeless, hempty]
    split
    · rfl
    · rw [Option.map_some, placeless_close]
  | component opening id label place opens =>
    have hdepth : s.placeless.scope.length = s.scope.length := List.length_map ..
    simp only [Clause.act, Clause.placeless, hdepth, Option.map_some]
    cases withinLimit limit s.scope.length <;> cases opens
    · rfl
    · rfl
    · exact congrArg some (placeless_attach ..)
    · rfl
  | port opening id target side label =>
    cases target with
    | inside connector =>
      simp only [Clause.act, Clause.placeless, hempty]
      split
      · rfl
      · rw [Option.map_some, placeless_addInner]
    | on node =>
      simp only [Clause.act, Clause.placeless, Option.map_some, ← placeless_addPort?]
      cases s.addPort? node { id, side, label } <;> rfl

theorem actAll_placeless (limit : Option Nat) (cs : List (Clause α)) (s : State α) :
    (actAll limit cs s).map State.placeless =
      actAll limit (cs.map Clause.placeless) s.placeless := by
  induction cs generalizing s with
  | nil => rfl
  | cons c cs ih =>
    rw [List.map_cons, actAll_cons, actAll_cons, ← act_placeless]
    cases c.act limit s with
    | none => rfl
    | some s' => exact ih s'

/-! ## Outlines -/

/-- A clause but for its position, and for where its tokens stand. -/
def Clause.outline (c : Clause α) : Clause α := c.unplaced.placeless

/-- A state but for positions, and for what its diagnostics are about. -/
def State.outline (s : State α) : State α := s.unplaced.placeless

theorem actAll_outline (limit : Option Nat) (cs : List (Clause α)) (s : State α) :
    (actAll limit cs s).map State.outline = actAll limit (cs.map Clause.outline) s.outline := by
  have h := actAll_placeless limit (cs.map Clause.unplaced) s.unplaced
  rw [← actAll_unplaced, Option.map_map, List.map_map] at h
  exact h

/-- Clauses of one outline make states of one outline. -/
theorem actAll_of_outline {limit : Option Nat} {cs cs' : List (Clause α)} {s : State α}
    (hcs : cs'.map Clause.outline = cs.map Clause.outline) (ha : actAll limit cs {} = some s) :
    ∃ s', actAll limit cs' {} = some s' ∧ s'.outline = s.outline := by
  have h := actAll_outline limit cs {}
  have h' := actAll_outline limit cs' {}
  rw [hcs, ← h, ha, Option.map_some] at h'
  exact Option.map_eq_some_iff.mp h'

theorem scope_of_outline {s s' : State α} (h : s'.outline = s.outline) (hs : s.scope = []) :
    s'.scope = [] := by
  have hscope := congrArg State.scope h
  have hmap : s'.scope.map Frame.placeless = s.scope.map Frame.placeless := hscope
  rw [hs] at hmap
  exact List.map_eq_nil_iff.mp hmap

end Grammar
end ComponentDiagram
