import ComponentDiagram.Proofs.Grammar.Listing
import ComponentDiagram.Proofs.Grammar.Sources
import ComponentDiagram.Proofs.Print.Canonical

/-! What is read is well formed: names are identifiers, labels are joined tokens, coordinates are
integers, and no component lies too deep. -/
namespace ComponentDiagram
open Source Grammar

variable {α : Type} [Scalar α]

/-- A coordinate that is read from an integer. -/
def IsCoordinate (x : α) : Prop := ∃ text, Reader.coordinateOf text = .ok x

/-- An end that is read from an identifier. -/
def Endpoint.IsRead (e : Endpoint) : Prop := ∃ text, IsIdentifier text ∧ e = Endpoint.ofString text

/-- A connector that is read at a place in the order of all connectors. -/
structure Connector.IsRead (place : Nat) (c : Connector) : Prop extends c.IsWellFormed where
  id : c.id = s!"edge-{place}"
  origin : c.origin = .declared
  source : c.source.IsRead
  target : c.target.IsRead

/-- A document as it is read. -/
structure Document.IsRead (doc : Document α) : Prop where
  roots : Tree.ForestAllBelow 50 (Component.IsWellFormed IsCoordinate) 0 doc.roots
  connectors : ∀ p ∈ doc.connectors.zipIdx, p.1.IsRead p.2

namespace Grammar

/-- What a clause of tokens holds. -/
inductive Clause.IsProper : Clause α → Prop
  | newline : IsProper .newline
  | closing : IsProper .closing
  | skipped {t} : IsProper (.skipped t)
  | edge {name iface source kind target label} : (∀ n ∈ name, IsIdentifier n) →
      (∀ n ∈ iface, IsIdentifier n) → IsIdentifier source → IsIdentifier target →
      (∀ mark, kind = .interface mark → IsValue .interfaceConnector mark.text) →
      (∀ l ∈ label, IsLabel l) → IsProper (.edge name iface source kind target label)
  | component {opening id label place opens} : IsIdentifier id → IsHeadLabel label →
      (∀ p ∈ place, IsCoordinate p.1 ∧ IsCoordinate p.2) →
      IsProper (.component opening id label place opens)
  | port {opening id target side label} : IsIdentifier id → IsIdentifier (targetName target) →
      (∀ l ∈ label, IsLabel l) → IsProper (.port opening id target side label)

omit [Scalar α] in
private theorem isIdentifier_text {t : Token} (h : IsToken t) (hk : t.kind = .identifier) :
    IsIdentifier t.text := by
  have hv := h.isValue
  rwa [hk] at hv

private theorem trailing_label {ts : List Token} (h : ∀ t ∈ ts, IsToken t) :
    ∀ l ∈ (trailing ts).1, IsLabel l := by
  intro l hl
  cases ts with
  | nil => cases hl
  | cons t ts =>
    rw [trailing] at hl
    split at hl
    · cases hl
      exact IsLabel.of_joined
        (fun u hu => h u (List.mem_cons_of_mem t (List.takeWhile_sublist _ |>.subset hu)))
        fun u hu => List.mem_takeWhile_imp hu
    · cases hl

private theorem head_label {ts : List Token} (h : ∀ t ∈ ts, IsToken t) :
    IsHeadLabel (Reader.joined (ts.takeWhile inHead)) := by
  have hsub : ∀ t ∈ ts.takeWhile inHead, IsToken t := fun t ht =>
    h t (List.takeWhile_sublist _ |>.subset ht)
  have hkind : ∀ t ∈ ts.takeWhile inHead, t.kind ≠ .atSign ∧ t.kind ≠ .leftBrace ∧
      t.kind ≠ .newline ∧ t.kind ≠ .rightBrace := by
    intro t ht
    simpa [inHead] using List.mem_takeWhile_imp ht
  refine ⟨.of_joined hsub fun t ht => ?_, not_mem_joined hsub rfl fun t ht => (hkind t ht).1,
    not_mem_joined hsub rfl fun t ht => (hkind t ht).2.1⟩
  simp [inLine, (hkind t ht).2.2]

omit [Scalar α] in
private theorem isValue_mark {drawn : Token} (h : IsToken drawn) {kind : ConnectorKind}
    (hk : Reader.connectorKind drawn = .ok kind) :
    ∀ mark, kind = .interface mark → IsValue .interfaceConnector mark.text := by
  rintro mark rfl
  unfold Reader.connectorKind at hk
  split at hk
  · cases hk
  · rename_i hd
    split at hk
    · rename_i m hm
      cases hk
      have hv := h.isValue
      rw [hd] at hv
      unfold InterfaceSymbol.ofString? at hm
      split at hm <;> cases hm
      exact hv
    · cases hk
  · split at hk <;> cases hk

theorem Ends.isProper {ts rest : List Token} {iface : Option String} {source target : String}
    {drawn : Token} (h : Ends ts iface source drawn target rest) (hts : ∀ t ∈ ts, IsToken t) :
    (∀ n ∈ iface, IsIdentifier n) ∧ IsIdentifier source ∧ IsIdentifier target ∧
      IsToken drawn ∧ ∀ t ∈ rest, IsToken t := by
  cases h with
  | bare hs hd ht =>
    simp only [List.forall_mem_cons] at hts
    obtain ⟨h1, h2, h3, h4⟩ := hts
    exact ⟨by simp, isIdentifier_text h1 hs, isIdentifier_text h3 ht, h2, h4⟩
  | named hf hs hd ht =>
    simp only [List.forall_mem_cons] at hts
    obtain ⟨h0, h1, h2, h3, h4⟩ := hts
    refine ⟨?_, isIdentifier_text h1 hs, isIdentifier_text h3 ht, h2, h4⟩
    simpa using isIdentifier_text h0 hf

theorem Placed.isProper {ts rest : List Token} {place : Option (α × α)}
    (h : Placed ts place rest) : ∀ p ∈ place, IsCoordinate p.1 ∧ IsCoordinate p.2 := by
  cases h with
  | absent => simp
  | present _ _ _ _ hx hy => simpa using ⟨⟨_, hx⟩, ⟨_, hy⟩⟩

theorem Reads.isProper {ts rest : List Token} {c : Clause α} (h : Reads ts c rest)
    (hts : ∀ t ∈ ts, IsToken t) : c.IsProper := by
  cases h with
  | newline => exact .newline
  | closing => exact .closing
  | skipped => exact .skipped
  | edge he hk =>
    obtain ⟨hi, hs, ht, hd, hr⟩ := he.isProper hts
    exact .edge (by simp) hi hs ht (isValue_mark hd hk) (trailing_label hr)
  | namedEdge hb he hk =>
    simp only [List.forall_mem_cons] at hts
    obtain ⟨-, hn, -, hts⟩ := hts
    obtain ⟨hi, hs, ht, hd, hr⟩ := he.isProper hts
    refine .edge ?_ hi hs ht (isValue_mark hd hk) (trailing_label hr)
    simpa using isIdentifier_text hn hb.inner
  | component hb _ hp =>
    simp only [List.forall_mem_cons] at hts
    obtain ⟨-, hn, -, hts⟩ := hts
    exact .component (isIdentifier_text hn hb.inner) (head_label hts) hp.isProper
  | port _ hb _ hb' hn =>
    simp only [List.forall_mem_cons] at hts
    obtain ⟨-, -, hi, -, -, -, hi', -, -, hts⟩ := hts
    exact .port (isIdentifier_text hi hb.inner) (hn ▸ isIdentifier_text hi' hb'.inner)
      (trailing_label hts)

theorem ReadsAll.isProper {ts rest : List Token} {cs : List (Clause α)} (h : ReadsAll ts cs rest)
    (hts : ∀ t ∈ ts, IsToken t) : ∀ c ∈ cs, c.IsProper := by
  induction h with
  | nil => simp
  | cons hr _ ih =>
    obtain ⟨t, tail, rfl, hs⟩ := hr.suffix
    exact List.forall_mem_cons.mpr ⟨hr.isProper hts,
      ih fun u hu => hts u (List.mem_cons_of_mem t (hs.subset hu))⟩

/-! ## States -/

/-- An open component at a depth, with well-formed components in it. -/
structure Frame.IsProper (limit depth : Nat) (frame : Frame α) : Prop where
  component : frame.component.IsWellFormed IsCoordinate
  attached : frame.attached = true → depth < limit
  children : Tree.ForestAllBelow limit (Component.IsWellFormed IsCoordinate) (depth + 1)
    frame.children

/-- Open components, the innermost first. -/
def FramesProper (limit : Nat) : List (Frame α) → Prop
  | [] => True
  | frame :: outer => frame.IsProper limit outer.length ∧ FramesProper limit outer

structure State.IsProper (limit : Nat) (s : State α) : Prop where
  roots : Tree.ForestAllBelow limit (Component.IsWellFormed IsCoordinate) 0 s.roots
  scope : FramesProper limit s.scope
  connectors : ∀ p ∈ s.connectors.zipIdx, p.1.IsRead p.2

theorem FramesProper.replace {limit : Nat} {l r : List (Frame α)} {frame frame' : Frame α}
    (h : FramesProper limit (l ++ frame :: r))
    (hf : frame.IsProper limit r.length → frame'.IsProper limit r.length) :
    FramesProper limit (l ++ frame' :: r) := by
  induction l with
  | nil => exact ⟨hf h.1, h.2⟩
  | cons f l ih =>
    have hlength : (l ++ frame' :: r).length = (l ++ frame :: r).length := by simp
    exact ⟨hlength ▸ h.1, ih h.2⟩

theorem wellFormed_withPort {port : Port α} (hp : port.IsCanonical) {c : Component α}
    (h : c.IsWellFormed IsCoordinate) : (withPort port c).IsWellFormed IsCoordinate := by
  refine ⟨h.id, h.label, h.place, h.width, h.height, fun q hq => ?_⟩
  rcases List.mem_append.mp hq with hq | hq
  · exact h.ports q hq
  · rw [List.mem_singleton.mp hq]
    exact hp

theorem State.IsProper.addPort? {limit : Nat} {s s' : State α} (hs : s.IsProper limit)
    {id : String} {port : Port α} (hp : port.IsCanonical) (h : s.addPort? id port = some s') :
    s'.IsProper limit := by
  have hscope := hs.scope
  rcases State.addPort?_some h with ⟨l, f, r, hl, -, rfl⟩ | ⟨roots, hr, rfl⟩ |
      ⟨l, f, r, children, hl, hc, rfl⟩
  · rw [hl] at hscope
    exact ⟨hs.roots, hscope.replace fun hf => ⟨wellFormed_withPort hp hf.component, hf.attached,
      hf.children⟩, hs.connectors⟩
  · exact ⟨hs.roots.modifyFirst? hr fun c => wellFormed_withPort hp, hscope, hs.connectors⟩
  · rw [hl] at hscope
    exact ⟨hs.roots, hscope.replace fun hf => ⟨hf.component, hf.attached,
      hf.children.modifyFirst? hc fun c => wellFormed_withPort hp⟩, hs.connectors⟩

theorem State.IsProper.attach {limit : Nat} {s : State α} (hs : s.IsProper limit)
    {t : ComponentTree α}
    (ht : t.AllBelow limit (Component.IsWellFormed IsCoordinate) s.scope.length) :
    (s.attach t).IsProper limit := by
  have hsingle {depth : Nat} (h : t.AllBelow limit (Component.IsWellFormed IsCoordinate) depth) :
      Tree.ForestAllBelow limit (Component.IsWellFormed IsCoordinate) depth [t] := ⟨h, trivial⟩
  have hscope := hs.scope
  rw [State.attach]
  split
  · rename_i frame outer he
    rw [he] at hscope ht
    exact ⟨hs.roots, ⟨⟨hscope.1.component, hscope.1.attached,
      hscope.1.children.append (hsingle ht)⟩, hscope.2⟩, hs.connectors⟩
  · rename_i he
    rw [he] at ht
    exact ⟨hs.roots.append (hsingle ht), hscope, hs.connectors⟩

theorem State.IsProper.close {limit : Nat} {s : State α} (hs : s.IsProper limit) :
    s.close.IsProper limit := by
  have hscope := hs.scope
  rw [State.close]
  split
  · rename_i frame outer he
    rw [he] at hscope
    have hleft : ({ s with scope := outer } : State α).IsProper limit :=
      ⟨hs.roots, hscope.2, hs.connectors⟩
    split
    · rename_i ha
      refine hleft.attach ?_
      rw [Frame.tree, List.append_nil, Tree.AllBelow]
      exact ⟨⟨hscope.1.component, hscope.1.attached ha⟩, hscope.1.children⟩
    · exact hleft
  · exact hs

theorem wellFormed_written {id label : String} {place : Option (α × α)} (hi : IsIdentifier id)
    (hl : IsHeadLabel label) (hp : ∀ p ∈ place, IsCoordinate p.1 ∧ IsCoordinate p.2) :
    (written id label place).IsWellFormed IsCoordinate := by
  refine ⟨hi, hl, ?_, rfl, rfl, by simp [written]⟩
  cases place with
  | none => exact .inl ⟨rfl, rfl⟩
  | some p => exact .inr ⟨p.1, p.2, rfl, rfl, hp p rfl⟩

theorem State.IsProper.warned {limit : Nat} {s : State α} (hs : s.IsProper limit)
    (message : String) (t : Token) : (s.warned message t).IsProper limit :=
  ⟨hs.roots, hs.scope, hs.connectors⟩

theorem State.IsProper.connect {limit : Nat} {s : State α} (hs : s.IsProper limit)
    {name interface label : Option String} {source target : String} {kind : ConnectorKind}
    (hn : ∀ n ∈ name, IsIdentifier n) (hi : ∀ n ∈ interface, IsIdentifier n)
    (hsource : IsIdentifier source) (htarget : IsIdentifier target)
    (hmark : ∀ mark, kind = .interface mark → IsValue .interfaceConnector mark.text)
    (hl : ∀ l ∈ label, IsLabel l) :
    (s.connect name interface source kind target label).IsProper limit := by
  refine ⟨hs.roots, hs.scope, ?_⟩
  simp only [State.connect, List.zipIdx_append, List.zipIdx_singleton, Nat.zero_add]
  intro p hp
  rcases List.mem_append.mp hp with hp | hp
  · exact hs.connectors p hp
  · rw [List.mem_singleton.mp hp]
    exact ⟨⟨hn, hi, hmark, hl⟩, rfl, rfl, ⟨_, hsource, rfl⟩, ⟨_, htarget, rfl⟩⟩

theorem State.IsProper.enter {limit : Nat} {s : State α} (hs : s.IsProper limit)
    {c : Component α} (hc : c.IsWellFormed IsCoordinate) {attached : Bool}
    (ha : attached = true → s.scope.length < limit) : (s.enter c attached).IsProper limit :=
  ⟨hs.roots, ⟨⟨hc, ha, trivial⟩, hs.scope⟩, hs.connectors⟩

theorem State.IsProper.addInner {limit : Nat} {s : State α} (hs : s.IsProper limit)
    {port : Port α} (hp : port.IsCanonical) : (s.addInner port).IsProper limit := by
  have hscope := hs.scope
  rw [State.addInner]
  split
  · rename_i frame outer he
    rw [he] at hscope
    exact ⟨hs.roots, ⟨⟨wellFormed_withPort hp hscope.1.component, hscope.1.attached,
      hscope.1.children⟩, hscope.2⟩, hs.connectors⟩
  · exact hs

/-- Clauses that hold what can be written make states that do. -/
theorem act_isProper {limit : Nat} {c : Clause α} (hc : c.IsProper) {s s' : State α}
    (hs : s.IsProper limit) (h : c.act (some limit) s = some s') : s'.IsProper limit := by
  cases hc with
  | newline => cases h; exact hs
  | closing =>
    simp only [Clause.act] at h
    split at h <;> cases h
    exact hs.close
  | skipped => cases h; exact hs.warned ..
  | edge hn hi hsource htarget hmark hl =>
    cases h
    exact hs.connect hn hi hsource htarget hmark hl
  | component hi hl hp =>
    have hw := wellFormed_written hi hl hp
    simp only [Clause.act, Option.some.injEq] at h
    subst h
    cases ha : withinLimit (some limit) s.scope.length with
    | true =>
      have hdepth : s.scope.length < limit := of_decide_eq_true ha
      simp only [if_true]
      split
      · exact hs.enter hw fun _ => hdepth
      · exact hs.attach ⟨⟨hw, hdepth⟩, trivial⟩
    | false =>
      simp only [Bool.false_eq_true, if_false]
      split
      · exact (hs.warned ..).enter hw fun ha => absurd ha Bool.false_ne_true
      · exact hs.warned ..
  | @port opening id target side label hi ht hl =>
    cases target with
    | inside connector =>
      have hconnector : IsIdentifier connector := ht
      simp only [Clause.act] at h
      split at h <;> cases h
      exact hs.addInner ⟨hi, hl, rfl, by simpa using hconnector⟩
    | on node =>
      have hp : Port.IsCanonical (α := α) { id, side, label } := ⟨hi, hl, rfl, by simp⟩
      simp only [Clause.act, Option.some.injEq] at h
      cases ha : s.addPort? node { id, side, label } with
      | none => rw [ha] at h; cases h; exact hs.warned ..
      | some t => rw [ha] at h; cases h; exact hs.addPort? hp ha

theorem actAll_isProper {limit : Nat} {cs : List (Clause α)} (hc : ∀ c ∈ cs, c.IsProper)
    {s s' : State α} (hs : s.IsProper limit) (h : actAll (some limit) cs s = some s') :
    s'.IsProper limit := by
  induction cs generalizing s with
  | nil => cases h; exact hs
  | cons c cs ih =>
    obtain ⟨hfirst, hothers⟩ := List.forall_mem_cons.mp hc
    obtain ⟨s₁, h₁, h₂⟩ := Option.bind_eq_some_iff.mp h
    exact ih hothers (act_isProper hfirst hs h₁) h₂

theorem Accepts.isProper {limit : Nat} {ts : List Token} {type : DiagramType} {s : State α}
    (h : Accepts (some limit) ts type s) (hts : ∀ t ∈ ts, IsToken t) :
    s.IsProper limit ∧ s.scope = [] := by
  have hempty : ({} : State α).IsProper limit := ⟨trivial, trivial, by simp⟩
  have hlines {us : List Token} : afterLines us <:+ us := List.dropWhile_suffix _
  cases h with
  | plain _ hr ha hd =>
    exact ⟨actAll_isProper (hr.isProper fun t ht => hts t (hlines.subset ht)) hempty ha, hd⟩
  | wrapped he _ _ hb _ hr _ _ ha hd =>
    refine ⟨actAll_isProper (hr.isProper fun t ht => hts t ?_) hempty ha, hd⟩
    refine hlines.subset (he ▸ ?_)
    have hmem := hlines.subset (hb ▸ List.mem_cons_of_mem _ ht)
    simp [hmem]

/-- What is read is well formed. -/
theorem parse_isRead {text : String} {file : Option Path} {doc : Document α}
    (h : parse text file = .ok doc) : doc.IsRead := by
  obtain ⟨type, s, ha, he⟩ := accepts_of_parse h
  obtain ⟨hs, hscope⟩ := ha.isProper fun t ht => isToken_of_mem_cut ht
  have hroots : doc.roots = s.roots := by
    have h := congrArg Document.roots he
    simp only [Document.unplaced, State.document, State.forest, hscope, openRoot,
      List.append_nil] at h
    exact h.symm
  have hconnectors : doc.connectors = s.connectors := (congrArg Document.connectors he).symm
  exact ⟨hroots ▸ hs.roots, hconnectors ▸ hs.connectors⟩

end Grammar

end ComponentDiagram
