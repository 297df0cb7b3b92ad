import ComponentDiagram.Proofs.Grammar.SoleOwner
import ComponentDiagram.Proofs.Model.Depth

/-! What has been read so far by depth: the components that do not lie too deep, and the ids of all
with their depths. -/
namespace ComponentDiagram.Grammar

variable {α : Type}

/-! ## What is kept of a state -/

/-- The open components without what is too deep inside them; those that are too deep themselves
stay open, and are dropped when they close. -/
def prunedScope (n : Nat) : List (Frame α) → List (Frame α)
  | [] => []
  | frame :: outer =>
    { frame with
      children := Tree.forestPrune n (outer.length + 1) frame.children
      attached := outer.length < n } :: prunedScope n outer

/-- A state without the components that are too deep, and with other diagnostics. -/
def State.pruned (n : Nat) (diagnostics : List Diagnostic) (s : State α) : State α :=
  { s with
    scope := prunedScope n s.scope
    roots := Tree.forestPrune n 0 s.roots
    diagnostics }

variable {n : Nat} {ds : List Diagnostic}

theorem pruned_attach (s : State α) (c : Component α) (ts : List (ComponentTree α)) :
    (s.attach (.node c ts)).pruned n ds =
      if s.scope.length < n then
        (s.pruned n ds).attach (.node c (Tree.forestPrune n (s.scope.length + 1) ts))
      else s.pruned n ds := by
  obtain ⟨_, scope, roots, _, _⟩ := s
  cases scope with
  | nil =>
    simp only [State.attach, State.pruned, prunedScope, Tree.forestPrune_append,
      Tree.forestPrune_singleton, Tree.prune, List.length_nil]
    split
    · rfl
    · rw [List.append_nil]
  | cons frame outer =>
    simp only [State.attach, State.pruned, prunedScope, Tree.forestPrune_append,
      Tree.forestPrune_singleton, Tree.prune, List.length_cons]
    split
    · rfl
    · rw [List.append_nil]

theorem pruned_close {s : State α} (h : ∀ frame ∈ s.scope.head?, frame.attached = true) :
    s.close.pruned n ds = (s.pruned n ds).close := by
  obtain ⟨index, scope, roots, connectors, diagnostics⟩ := s
  cases scope with
  | nil => rfl
  | cons frame outer =>
    simp only [State.close, h frame rfl, if_true, Frame.tree, List.append_nil, pruned_attach]
    simp only [State.pruned, prunedScope, decide_eq_true_eq]

theorem pruned_addInner (s : State α) (port : Port α) :
    (s.addInner port).pruned n ds = (s.pruned n ds).addInner port := by
  obtain ⟨_, scope, _, _, _⟩ := s
  cases scope <;> rfl

private theorem prunedScope_mapped (f : Component α → Component α) (scope : List (Frame α)) :
    prunedScope n (scope.map (Frame.mapped f)) = (prunedScope n scope).map (Frame.mapped f) := by
  induction scope with
  | nil => rfl
  | cons frame outer ih =>
    rw [List.map_cons, prunedScope, prunedScope, List.map_cons, ih, List.length_map]
    simp only [Frame.mapped, Tree.forestPrune_map]

theorem pruned_mapped (f : Component α → Component α) (s : State α) :
    (s.mapped f).pruned n ds = (s.pruned n ds).mapped f := by
  simp only [State.pruned, State.mapped, prunedScope_mapped, Tree.forestPrune_map]

/-- Only what is deep enough inside is dropped. -/
private theorem lt_of_not_attached {scope : List (Frame α)} {frame : Frame α}
    (h : frame ∈ prunedScope n scope) (ha : frame.attached = false) : n < scope.length := by
  induction scope with
  | nil => cases h
  | cons f outer ih =>
    rw [List.length_cons]
    rcases List.mem_cons.mp h with rfl | h
    · have hdeep : ¬ outer.length < n := of_decide_eq_false ha
      omega
    · have hlt := ih h
      omega

theorem shedding_prunedScope (n : Nat) (scope : List (Frame α)) :
    Shedding (prunedScope n scope) := by
  induction scope with
  | nil => exact ⟨List.forall_mem_nil _, .nil⟩
  | cons frame outer ih =>
    refine ⟨List.forall_mem_cons.mpr ⟨fun ha => ?_, ih.itself⟩,
      List.pairwise_cons.mpr ⟨fun f hf ha => ?_, ih.inside⟩⟩
    · have hdeep : ¬ outer.length < n := of_decide_eq_false ha
      exact Tree.forestPrune_of_le (by omega) _
    · have hlt := lt_of_not_attached hf ha
      exact Tree.forestPrune_of_le (by omega) _

theorem distinct_pruned {s : State α} (h : s.Distinct) : (s.pruned n ds).Distinct := by
  have hscope (scope : List (Frame α)) :
      ((prunedScope n scope).reverse.flatMap Frame.components).Sublist
        (scope.reverse.flatMap Frame.components) := by
    induction scope with
    | nil => exact .refl _
    | cons frame outer ih =>
      simp only [prunedScope, List.reverse_cons, List.flatMap_append, List.flatMap_singleton]
      exact ih.append ((Tree.values_forestPrune_sublist ..).cons_cons frame.component)
  have hcomponents := (Tree.values_forestPrune_sublist n 0 s.roots).append (hscope s.scope)
  exact h.sublist (hcomponents.map _)

/-- Where ids are distinct, a port on a component that is kept is kept. -/
theorem pruned_addPort? {s : State α} (hd : s.Distinct)
    (ha : ∀ frame ∈ s.scope, frame.attached = true) (id : String) (port : Port α) :
    ((s.addPort? id port).getD s).pruned n ds =
      ((s.pruned n ds).addPort? id port).getD (s.pruned n ds) := by
  rw [State.addPort?_getD hd (shedding_of_attached ha), pruned_mapped,
    State.addPort?_getD (distinct_pruned hd) (shedding_prunedScope n s.scope)]

/-! ## The ids that were read, with their depths -/

def scopeLeveled : List (Frame α) → List (Nat × Component α)
  | [] => []
  | frame :: outer => scopeLeveled outer ++
    (outer.length, frame.component) :: Tree.forestLeveled (outer.length + 1) frame.children

/-- All components so far in pre-order, each with its depth. -/
def State.leveled (s : State α) : List (Nat × Component α) :=
  Tree.forestLeveled 0 s.roots ++ scopeLeveled s.scope

theorem leveled_components (s : State α) : s.leveled.map Prod.snd = s.components := by
  have hscope (scope : List (Frame α)) :
      (scopeLeveled scope).map Prod.snd = scope.reverse.flatMap Frame.components := by
    induction scope with
    | nil => rfl
    | cons frame outer ih =>
      rw [scopeLeveled, List.map_append, List.map_cons, ih, Tree.forestLeveled_values]
      simp [Frame.components]
  rw [State.leveled, List.map_append, Tree.forestLeveled_values, hscope, State.components]

/-- The ids so far in pre-order, each with its depth. -/
def State.levels (s : State α) : List (Nat × String) := s.leveled.map fun p => (p.1, p.2.id)

theorem levels_ids (s : State α) : s.levels.map Prod.snd = s.components.map (·.id) := by
  rw [← leveled_components, State.levels, List.map_map, List.map_map]
  rfl

theorem leveled_mapped (f : Component α → Component α) (s : State α) :
    (s.mapped f).leveled = s.leveled.map fun p => (p.1, f p.2) := by
  have hscope (scope : List (Frame α)) : scopeLeveled (scope.map (Frame.mapped f)) =
      (scopeLeveled scope).map fun p => (p.1, f p.2) := by
    induction scope with
    | nil => rfl
    | cons frame outer ih =>
      rw [List.map_cons, scopeLeveled, scopeLeveled, ih, List.length_map, Frame.mapped,
        Tree.forestLeveled_map, List.map_append, List.map_cons]
  rw [State.leveled, State.leveled, List.map_append, ← hscope, ← Tree.forestLeveled_map]
  rfl

/-- A change that keeps ids keeps the list of them. -/
theorem levels_mapped {f : Component α → Component α} (hf : ∀ c, (f c).id = c.id) (s : State α) :
    (s.mapped f).levels = s.levels := by
  rw [State.levels, leveled_mapped, List.map_map, State.levels]
  refine List.map_congr_left fun p _ => ?_
  exact congrArg (p.1, ·) (hf p.2)

theorem levels_addPort? {s s' : State α} {id : String} {port : Port α}
    (h : s.addPort? id port = some s') : s'.levels = s.levels := by
  have hkept : ∀ c : Component α, ({ id := c.id } : Component α).id = c.id := fun _ => rfl
  rw [← levels_mapped hkept s', State.mapped_addPort? h fun _ => rfl, levels_mapped hkept]

theorem levels_addInner (s : State α) (port : Port α) : (s.addInner port).levels = s.levels := by
  obtain ⟨_, scope, _, _, _⟩ := s
  cases scope with
  | nil => rfl
  | cons frame outer =>
    simp [State.addInner, State.levels, State.leveled, scopeLeveled, Frame.addPort]

theorem leveled_attach (s : State α) (t : ComponentTree α) :
    (s.attach t).leveled = s.leveled ++ Tree.leveled s.scope.length t := by
  have hsingle (depth : Nat) : Tree.forestLeveled depth [t] = Tree.leveled depth t :=
    List.append_nil _
  obtain ⟨_, scope, roots, _, _⟩ := s
  cases scope with
  | nil => simp [State.attach, State.leveled, scopeLeveled, Tree.forestLeveled_append, hsingle]
  | cons frame outer =>
    simp [State.attach, State.leveled, scopeLeveled, Tree.forestLeveled_append, hsingle]

theorem levels_attach (s : State α) (c : Component α) :
    (s.attach (.node c [])).levels = s.levels ++ [(s.scope.length, c.id)] := by
  rw [State.levels, leveled_attach, List.map_append]
  rfl

theorem levels_enter (s : State α) (c : Component α) (attached : Bool) :
    (s.enter c attached).levels = s.levels ++ [(s.scope.length, c.id)] := by
  simp [State.levels, State.leveled, State.enter, scopeLeveled, Tree.forestLeveled]

theorem levels_close {s : State α} (h : ∀ frame ∈ s.scope.head?, frame.attached = true) :
    s.close.levels = s.levels := by
  obtain ⟨index, scope, roots, connectors, diagnostics⟩ := s
  cases scope with
  | nil => rfl
  | cons frame outer =>
    simp only [State.close, h frame rfl, if_true, State.levels, leveled_attach]
    simp [State.leveled, scopeLeveled, Frame.tree, Tree.leveled]

theorem State.Distinct.of_levels {s s' : State α} (h : s'.Distinct) {added : List (Nat × String)}
    (hl : s'.levels = s.levels ++ added) : s.Distinct := by
  rw [State.Distinct, ← levels_ids] at h ⊢
  rw [hl, List.map_append] at h
  exact (List.nodup_append.mp h).1

end ComponentDiagram.Grammar
