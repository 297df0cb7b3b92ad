import ComponentDiagram.Proofs.Grammar.Listing

/-! Distinct ids. A port on a component goes to the one component that has the id, wherever it
is. -/
namespace ComponentDiagram.Grammar

variable {α : Type}

/-- No two components so far have one id. -/
def State.Distinct (s : State α) : Prop := (s.components.map (·.id)).Nodup

def Frame.mapped (f : Component α → Component α) (frame : Frame α) : Frame α :=
  { frame with
    component := f frame.component
    children := Tree.forestMap f frame.children }

/-- A state with each of its components changed. -/
def State.mapped (f : Component α → Component α) (s : State α) : State α :=
  { s with
    scope := s.scope.map (Frame.mapped f)
    roots := Tree.forestMap f s.roots }

/-- The component with one more port, if the id names it. -/
def withPortOn (id : String) (port : Port α) (c : Component α) : Component α :=
  if c.id = id ∧ id ≠ "" then withPort port c else c

theorem withPortOn_of_ne {id : String} {c : Component α} (h : c.id ≠ id) (port : Port α) :
    withPortOn id port c = c :=
  if_neg fun hc => h hc.1

/-! ## Changes that keep most components -/

section

variable {f : Component α → Component α}

private theorem Frame.mapped_self {frame : Frame α} (h : ∀ c ∈ frame.components, f c = c) :
    frame.mapped f = frame := by
  obtain ⟨hcomponent, hchildren⟩ := List.forall_mem_cons.mp h
  rw [Frame.mapped, hcomponent, Tree.forestMap_self hchildren]

private theorem frames_mapped_self {frames : List (Frame α)}
    (h : ∀ c ∈ frames.flatMap Frame.components, f c = c) : frames.map (Frame.mapped f) = frames :=
  (List.map_congr_left fun _ hframe => Frame.mapped_self fun c hc =>
    h c (List.mem_flatMap_of_mem hframe hc)).trans (List.map_id frames)

private theorem frames_mapped_self_reverse {frames : List (Frame α)}
    (h : ∀ c ∈ frames.reverse.flatMap Frame.components, f c = c) :
    frames.map (Frame.mapped f) = frames := by
  have hreverse := frames_mapped_self h
  rwa [List.map_reverse, List.reverse_inj] at hreverse

theorem State.mapped_self {s : State α} (h : ∀ c ∈ s.components, f c = c) : s.mapped f = s := by
  obtain ⟨hroots, hscope⟩ := List.forall_mem_append.mp h
  rw [State.mapped, frames_mapped_self_reverse hscope, Tree.forestMap_self hroots]

/-- A change that keeps all components but those of one frame. -/
private theorem State.mapped_frame {s : State α} {l r : List (Frame α)} {frame : Frame α}
    (hs : s.scope = l ++ frame :: r)
    (h : ∀ c ∈ (Tree.values s.roots ++ r.reverse.flatMap Frame.components) ++
      l.reverse.flatMap Frame.components, f c = c) :
    s.mapped f = { s with scope := l ++ frame.mapped f :: r } := by
  obtain ⟨houter, hl⟩ := List.forall_mem_append.mp h
  obtain ⟨hroots, hr⟩ := List.forall_mem_append.mp houter
  rw [State.mapped, hs, List.map_append, List.map_cons, frames_mapped_self_reverse hl,
    frames_mapped_self_reverse hr, Tree.forestMap_self hroots]

end

/-! ## Where a port is added -/

/-- A component with an id that another one has is that one. -/
private theorem ne_of_distinct {a m b : List (Component α)}
    (h : ((a ++ m ++ b).map (·.id)).Nodup) {c : Component α} (hc : c ∈ m) :
    ∀ x ∈ a ++ b, x.id ≠ c.id := by
  rw [List.map_append, List.map_append, List.nodup_append, List.nodup_append] at h
  obtain ⟨⟨-, -, ham⟩, -, hmb⟩ := h
  have hid {l : List (Component α)} {x : Component α} (hx : x ∈ l) : x.id ∈ l.map (·.id) :=
    List.mem_map_of_mem hx
  rw [List.forall_mem_append]
  exact ⟨fun x hx => ham _ (hid hx) _ (hid hc),
    fun x hx => (hmb _ (List.mem_append_right _ (hid hc)) _ (hid hx)).symm⟩

private theorem nodup_middle {a m b : List (Component α)}
    (h : ((a ++ m ++ b).map (·.id)).Nodup) : (m.map (·.id)).Nodup :=
  h.sublist (((List.sublist_append_right a m).trans (List.sublist_append_left _ b)).map _)

private theorem addToFinished?_distinct {id : String} {port : Port α}
    {ts ts' : List (ComponentTree α)} (h : addToFinished? id port ts = some ts') (hid : id ≠ "")
    (hn : ((Tree.values ts).map (·.id)).Nodup) :
    ts' = Tree.forestMap (withPortOn id port) ts ∧ ∃ c ∈ Tree.values ts, c.id = id := by
  constructor
  · have hone : (Tree.values ts).Pairwise fun v w =>
        (v.id == id) = true → (w.id == id) = false := by
      refine (List.pairwise_map.mp hn).imp fun hne hv => ?_
      rw [← beq_iff_eq.mp hv]
      exact beq_eq_false_iff_ne.mpr hne.symm
    refine (Tree.forestModifyFirst?_eq_forestMap hone h).trans (congrArg (Tree.forestMap · ts) ?_)
    funext c
    rw [withPortOn, withPort]
    by_cases hc : c.id = id
    · rw [if_pos (beq_iff_eq.mpr hc), if_pos ⟨hc, hid⟩]
    · rw [if_neg (mt beq_iff_eq.mp hc), if_neg fun hboth => hc hboth.1]
  · obtain ⟨l, c, r, hl, hc, -⟩ := Tree.forestModifyFirst?_values h
    refine ⟨c, ?_, beq_iff_eq.mp hc⟩
    rw [hl]
    exact List.mem_append_right l (List.mem_cons_self ..)

/-- A component that is dropped holds nothing, nor does any that is open inside it. -/
structure Shedding (scope : List (Frame α)) : Prop where
  itself : ∀ frame ∈ scope, frame.attached = false → frame.children = []
  inside : scope.Pairwise fun inner outer => outer.attached = false → inner.children = []

theorem shedding_of_attached {scope : List (Frame α)}
    (h : ∀ frame ∈ scope, frame.attached = true) : Shedding scope where
  itself frame hframe hlost := absurd hlost (by simp [h frame hframe])
  inside := List.pairwise_of_forall_mem_list fun _ _ outer houter hlost =>
    absurd hlost (by simp [h outer houter])

private theorem not_mem_of_addInside?_none {id : String} {port : Port α} {frames : List (Frame α)}
    (h : addInside? id port frames = none)
    (hself : ∀ frame ∈ frames, frame.attached = false → frame.children = [])
    (hinside : frames.Pairwise fun outer inner => outer.attached = false → inner.children = []) :
    ∀ frame ∈ frames, ∀ c ∈ Tree.values frame.children, c.id ≠ id := by
  induction frames with
  | nil => exact List.forall_mem_nil _
  | cons frame inner ih =>
    obtain ⟨hframe, hself⟩ := List.forall_mem_cons.mp hself
    obtain ⟨hwithin, hinside⟩ := List.pairwise_cons.mp hinside
    rw [List.forall_mem_cons]
    rw [addInside?] at h
    have hempty {frame : Frame α} (hnone : frame.children = []) :
        ∀ c ∈ Tree.values frame.children, c.id ≠ id := by
      rw [hnone]
      exact List.forall_mem_nil _
    -- the search goes from the outermost in, and breaks off at a component that is dropped
    cases ha : frame.attached with
    | false => exact ⟨hempty (hframe ha), fun f hf => hempty (hwithin f hf ha)⟩
    | true =>
      rw [ha, if_pos rfl] at h
      cases hc : addToFinished? id port frame.children with
      | some children => rw [hc] at h; cases h
      | none =>
        rw [hc] at h
        refine ⟨fun c hmem => ?_, ih (Option.map_eq_none_iff.mp h) hself hinside⟩
        exact beq_eq_false_iff_ne.mp (Tree.of_forestModifyFirst?_none hc c hmem)

private theorem not_mem_of_addToOpen?_none {id : String} {port : Port α} {frames : List (Frame α)}
    (h : addToOpen? id port frames = none) : ∀ frame ∈ frames, frame.component.id ≠ id := by
  induction frames with
  | nil => exact List.forall_mem_nil _
  | cons frame outer ih =>
    rw [addToOpen?] at h
    split at h
    · cases h
    · rename_i hne
      exact List.forall_mem_cons.mpr ⟨mt beq_iff_eq.mpr hne, ih (Option.map_eq_none_iff.mp h)⟩

/-- A port is added nowhere only where no component has the id. -/
theorem State.not_mem_of_addPort?_none {s : State α} {id : String} {port : Port α}
    (h : s.addPort? id port = none) (hid : id ≠ "") (hs : Shedding s.scope) :
    ∀ c ∈ s.components, c.id ≠ id := by
  rw [State.addPort?, if_neg hid] at h
  cases hopen : addToOpen? id port s.scope with
  | some scope => rw [hopen] at h; cases h
  | none =>
    cases hroots : addToFinished? id port s.roots with
    | some roots => rw [hopen, hroots] at h; cases h
    | none =>
      rw [hopen, hroots] at h
      have hchildren := not_mem_of_addInside?_none (Option.map_eq_none_iff.mp h)
        (fun frame hframe => hs.itself frame (List.mem_reverse.mp hframe))
        (List.pairwise_reverse.mpr hs.inside)
      refine List.forall_mem_append.mpr ⟨fun c hc => ?_, fun c hc => ?_⟩
      · exact beq_eq_false_iff_ne.mp (Tree.of_forestModifyFirst?_none hroots c hc)
      · obtain ⟨frame, hframe, hc⟩ := List.mem_flatMap.mp hc
        rcases List.mem_cons.mp hc with rfl | hc
        · exact not_mem_of_addToOpen?_none hopen frame (List.mem_reverse.mp hframe)
        · exact hchildren frame hframe c hc

theorem State.addPort?_distinct {s s' : State α} {id : String} {port : Port α}
    (h : s.addPort? id port = some s') (hd : s.Distinct) :
    s' = s.mapped (withPortOn id port) := by
  have hid : id ≠ "" := by
    rintro rfl
    rw [State.addPort?, if_pos rfl] at h
    cases h
  have hkept {cs : List (Component α)} (h : ∀ c ∈ cs, c.id ≠ id) :
      ∀ c ∈ cs, withPortOn id port c = c := fun c hc => withPortOn_of_ne (h c hc) port
  rcases State.addPort?_some h with ⟨l, frame, r, hs, hname, rfl⟩ | ⟨roots, hr, rfl⟩ |
      ⟨l, frame, r, children, hs, hc, rfl⟩
  · rw [State.Distinct, components_scope s hs] at hd
    have hothers := ne_of_distinct hd (c := frame.component) (List.mem_cons_self ..)
    have hchildren : ∀ c ∈ Tree.values frame.children, c.id ≠ id := fun c hc => by
      have hframe := (List.pairwise_cons.mp (nodup_middle hd)).1 _ (List.mem_map_of_mem hc)
      exact hname ▸ hframe.symm
    have hadded : frame.addPort port = frame.mapped (withPortOn id port) := by
      rw [Frame.mapped, Tree.forestMap_self (hkept hchildren), withPortOn, if_pos ⟨hname, hid⟩]
      rfl
    rw [State.mapped_frame hs (hkept (hname ▸ hothers)), hadded]
  · obtain ⟨rfl, c, hc, hname⟩ := addToFinished?_distinct hr hid (nodup_middle (a := []) hd)
    have hothers := ne_of_distinct (a := []) hd hc
    rw [State.mapped, frames_mapped_self_reverse (hkept (hname ▸ hothers))]
  · -- the owner is inside the open component, which then has another id
    rw [State.Distinct, components_scope s hs] at hd
    have hframe := nodup_middle hd
    obtain ⟨rfl, c, hmem, hname⟩ := addToFinished?_distinct hc hid (List.pairwise_cons.mp hframe).2
    have hothers := ne_of_distinct hd (List.mem_cons_of_mem frame.component hmem)
    have hopen : frame.component.id ≠ id := by
      rw [← hname]
      exact (List.pairwise_cons.mp hframe).1 _ (List.mem_map_of_mem hmem)
    rw [State.mapped_frame hs (hkept (hname ▸ hothers)), Frame.mapped, withPortOn_of_ne hopen]

/-- Where ids are distinct, a port is added to all components that have the id: to one, or to
none. -/
theorem State.addPort?_getD {s : State α} {id : String} {port : Port α} (hd : s.Distinct)
    (hs : Shedding s.scope) : (s.addPort? id port).getD s = s.mapped (withPortOn id port) := by
  cases h : s.addPort? id port with
  | some s' => exact State.addPort?_distinct h hd
  | none =>
    refine (State.mapped_self fun c hc => ?_).symm
    by_cases hid : id = ""
    · exact if_neg fun hboth => hboth.2 hid
    · exact withPortOn_of_ne (State.not_mem_of_addPort?_none h hid hs c hc) port

/-- A change that forgets ports forgets that one is added. -/
theorem State.mapped_addPort? {s s' : State α} {id : String} {port : Port α}
    (h : s.addPort? id port = some s') {f : Component α → Component α}
    (hf : ∀ c, f (withPort port c) = f c) : s'.mapped f = s.mapped f := by
  rcases State.addPort?_some h with ⟨l, frame, r, hs, -, rfl⟩ | ⟨roots, hr, rfl⟩ |
      ⟨l, frame, r, children, hs, hc, rfl⟩
  · have hframe : (frame.addPort port).mapped f = frame.mapped f := by
      rw [Frame.mapped, Frame.mapped, ← hf frame.component]
      rfl
    rw [State.mapped, State.mapped, hs, List.map_append, List.map_cons, hframe, List.map_append,
      List.map_cons]
  · rw [State.mapped, State.mapped, Tree.forestMap_forestModifyFirst? hf hr]
  · rw [State.mapped, State.mapped, hs, List.map_append, List.map_cons, List.map_append,
      List.map_cons, Frame.mapped, Tree.forestMap_forestModifyFirst? hf hc]
    rfl

end ComponentDiagram.Grammar
