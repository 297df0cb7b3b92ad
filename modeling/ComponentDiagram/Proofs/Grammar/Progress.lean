import ComponentDiagram.Proofs.Grammar.Listing
import ComponentDiagram.Proofs.Grammar.Statements

/-! What a reader does to its place. It goes on over its tokens and never over an end of input, and
a statement takes at least one token; what was open before is open behind it, and nothing else. -/
namespace ComponentDiagram

/-- A component without its ports. -/
def Component.portless {α : Type} (c : Component α) : Component α := { c with ports := [] }

namespace Grammar

variable {α β γ : Type}

/-! ## What stays open -/

/-- An open component at a later time: the same one, with what it has gathered since behind what it
had. A component inside it that is finished can still gain ports. -/
structure Frame.Grows (frame later : Frame α) : Prop where
  component : later.component.portless = frame.component.portless
  attached : later.attached = frame.attached
  ports : frame.component.ports <+: later.component.ports
  children : Tree.forestMap Component.portless frame.children <+:
    Tree.forestMap Component.portless later.children

namespace Frame.Grows

theorem refl (frame : Frame α) : frame.Grows frame :=
  ⟨rfl, rfl, List.prefix_rfl, List.prefix_rfl⟩

theorem trans {f g h : Frame α} (hfg : f.Grows g) (hgh : g.Grows h) : f.Grows h where
  component := hgh.component.trans hfg.component
  attached := hgh.attached.trans hfg.attached
  ports := hfg.ports.trans hgh.ports
  children := hfg.children.trans hgh.children

theorem addPort (frame : Frame α) (port : Port α) : frame.Grows (frame.addPort port) :=
  ⟨rfl, rfl, List.prefix_append .., List.prefix_rfl⟩

theorem of_finished {frame : Frame α} {id : String} {port : Port α}
    {children : List (ComponentTree α)}
    (h : addToFinished? id port frame.children = some children) :
    frame.Grows { frame with children } where
  component := rfl
  attached := rfl
  ports := List.prefix_rfl
  children := by
    have hsame : Tree.forestMap Component.portless children =
        Tree.forestMap Component.portless frame.children :=
      Tree.forestMap_forestModifyFirst?
        (f := fun c : Component α => { c with ports := c.ports ++ [port] }) (fun _ => rfl) h
    exact hsame ▸ List.prefix_rfl

theorem append (frame : Frame α) (tree : ComponentTree α) :
    frame.Grows { frame with children := frame.children ++ [tree] } where
  component := rfl
  attached := rfl
  ports := List.prefix_rfl
  children := by
    rw [Tree.forestMap_append]
    exact List.prefix_append ..

end Frame.Grows

/-- The same components are open, from the innermost out. -/
def SameScope (frames later : List (Frame α)) : Prop := List.Forall₂ Frame.Grows frames later

namespace SameScope

theorem refl (frames : List (Frame α)) : SameScope frames frames :=
  List.forall₂_same.mpr fun frame _ => .refl frame

theorem trans {fs gs hs : List (Frame α)} (hfg : SameScope fs gs) (hgh : SameScope gs hs) :
    SameScope fs hs := by
  induction hfg generalizing hs with
  | nil => exact hgh
  | cons hf _ ih =>
    cases hgh with
    | cons hg hrest => exact .cons (hf.trans hg) (ih hrest)

theorem replace {frame later : Frame α} (h : frame.Grows later) (l r : List (Frame α)) :
    SameScope (l ++ frame :: r) (l ++ later :: r) :=
  List.rel_append (refl l) (.cons h (refl r))

theorem attach (s : State α) (tree : ComponentTree α) :
    SameScope s.scope (s.attach tree).scope := by
  rw [State.attach]
  cases s.scope with
  | nil => exact .nil
  | cons frame outer => exact .cons (.append frame tree) (refl outer)

/-- What is open around a component that closes is still open. -/
theorem close {frame : Frame α} {outer : List (Frame α)} {s : State α}
    (h : SameScope (frame :: outer) s.scope) : SameScope outer s.close.scope := by
  rw [State.close]
  generalize hs : s.scope = scope at h
  cases h with
  | cons _ houter =>
    dsimp only
    split
    · exact trans houter (attach { s with scope := _ } _)
    · exact houter

end SameScope

/-! ## Moves -/

theorem attach_index (s : State α) (tree : ComponentTree α) : (s.attach tree).index = s.index := by
  rw [State.attach]
  split <;> rfl

theorem close_index (s : State α) : s.close.index = s.index := by
  rw [State.close]
  split
  · split
    · exact attach_index _ _
    · rfl
  · rfl

/-- A reader went on from a state to another: over tokens of which none is an end of input, and
with the same components open. -/
structure Moves (input : Input) (s s' : State α) : Prop where
  index : s.index ≤ s'.index
  between : ∀ i, s.index ≤ i → i < s'.index → (input.token i).kind ≠ .endOfInput
  scope : SameScope s.scope s'.scope

namespace Moves

variable {input : Input} {s t u : State α}

/-- The state changes, and the place stays. -/
theorem of_index (hi : t.index = s.index) (h : SameScope s.scope t.scope) : Moves input s t where
  index := hi.ge
  between _ hs ht := absurd (hi ▸ ht) (Nat.not_lt.mpr hs)
  scope := h

theorem refl (s : State α) : Moves input s s := of_index rfl (.refl s.scope)

theorem noted {limit : Option Nat} (opening : Token) (id : String) (s : State α) :
    Moves input s (Reader.noted limit opening id s) := by
  rw [Reader.noted]
  split
  · exact refl s
  · exact of_index rfl (.refl s.scope)

theorem attach (s : State α) (tree : ComponentTree α) : Moves input s (s.attach tree) :=
  of_index (attach_index s tree) (.attach s tree)

theorem addInner (s : State α) (port : Port α) : Moves input s (s.addInner port) := by
  rw [State.addInner]
  split
  · rename_i frame outer hs
    exact of_index rfl (hs ▸ SameScope.replace (.addPort frame port) [] outer)
  · exact refl s

theorem addPort? {id : String} {port : Port α} (h : s.addPort? id port = some t) :
    Moves input s t := by
  rcases State.addPort?_some h with ⟨l, frame, r, hs, -, rfl⟩ | ⟨roots, -, rfl⟩ |
      ⟨l, frame, r, children, hs, hc, rfl⟩
  · exact of_index rfl (hs ▸ .replace (.addPort frame port) l r)
  · exact of_index rfl (.refl s.scope)
  · exact of_index rfl (hs ▸ .replace (.of_finished hc) l r)

theorem trans (hst : Moves input s t) (htu : Moves input t u) : Moves input s u where
  index := hst.index.trans htu.index
  between i hs hu := by
    rcases Nat.lt_or_ge i t.index with ht | ht
    · exact hst.between i hs ht
    · exact htu.between i ht hu
  scope := hst.scope.trans htu.scope

/-- A component that was opened is closed. -/
theorem close {c : Component α} {attached : Bool} (h : Moves input (s.enter c attached) t) :
    Moves input s t.close := by
  have hclose := close_index t
  exact ⟨hclose ▸ h.index, hclose ▸ h.between, .close h.scope⟩

end Moves

namespace Reader

variable {input : Input}

/-- Wherever the reader starts, if it succeeds it has gone on. -/
def Advances (input : Input) (x : Reader α β) : Prop :=
  ∀ s b s', x s = .ok b s' → Moves input s s'

namespace Advances

theorem pure (b : β) : Advances input (pure b : Reader α β) := by
  intro s _ s' h
  cases h
  exact .refl s

theorem bind {x : Reader α β} {f : β → Reader α γ} (hx : Advances input x)
    (hf : ∀ b, Advances input (f b)) : Advances input (x >>= f) := by
  intro s c s' h
  obtain ⟨b, s₁, hb, h⟩ := bind_ok.mp h
  exact (hx s b s₁ hb).trans (hf b s₁ c s' h)

theorem get : Advances input (get : Reader α (State α)) := by
  intro s _ s' h
  cases h
  exact .refl s

theorem modify {f : State α → State α} (hf : ∀ s, Moves input s (f s)) :
    Advances input (modify f : Reader α PUnit) := by
  intro s _ s' h
  cases h
  exact hf s

theorem throw (e : Failure) : Advances input (throw e : Reader α β) := fun _ _ _ h => nomatch h

/-- Whatever would follow a failure. -/
theorem throw_bind (e : Failure) (f : β → Reader α γ) :
    Advances input ((MonadExcept.throw e : Reader α β) >>= f) := by
  intro s c s' h
  obtain ⟨_, _, hfail, _⟩ := bind_ok.mp h
  cases hfail

theorem warn (m : String) (t : Token) : Advances input (warn m t : Reader α Unit) :=
  modify fun s => .of_index rfl (.refl s.scope)

/-! ### Readers of tokens -/

variable (input)

theorem current : Advances input (current input : Reader α Token) := get.bind fun _ => pure _

theorem kind : Advances input (kind input : Reader α TokenKind) :=
  (current input).bind fun _ => pure _

theorem advance : Advances input (advance input : Reader α Token) := by
  intro s t s' h
  obtain ⟨_, _, hc, h⟩ := bind_ok.mp h
  cases hc
  split at h
  · rename_i hk
    cases h
    refine ⟨Nat.le_succ _, fun i hs hi => ?_, .refl s.scope⟩
    obtain rfl : i = s.index := Nat.le_antisymm (Nat.le_of_lt_succ hi) hs
    exact bne_iff_ne.mp hk
  · cases h
    exact .refl s

/-- The tokens of a run pass. -/
theorem kind_of_runTo {passes : TokenKind → Bool} {left index k : Nat}
    (h : k < (input.runTo passes left index).length) :
    passes (input.token (index + k)).kind = true := by
  induction left generalizing index k with
  | zero => exact absurd h (Nat.not_lt_zero k)
  | succ left ih =>
    rw [Input.runTo] at h
    split at h
    · rename_i hp
      cases k with
      | zero => exact hp
      | succ k =>
        rw [← Nat.add_assoc, Nat.add_right_comm]
        exact ih (Nat.lt_of_succ_lt_succ h)
    · exact absurd h (Nat.not_lt_zero k)

theorem takeRun (passes : TokenKind → Bool) :
    Advances input (takeRun input passes : Reader α (List Token)) := by
  intro s ts s' h
  cases h
  refine ⟨Nat.le_add_right .., fun i hs hi => ?_, .refl s.scope⟩
  have hrun := kind_of_runTo input (Nat.sub_lt_left_of_lt_add hs hi)
  rw [Nat.add_sub_cancel' hs, Bool.and_eq_true, bne_iff_ne] at hrun
  exact hrun.1

theorem skipNewlines : Advances input (skipNewlines input : Reader α Unit) :=
  (takeRun input _).bind fun _ => pure _

theorem collect (stops : List TokenKind) : Advances input (collect input stops : Reader α String) :=
  (takeRun input _).bind fun _ => pure _

theorem trailingLabel : Advances input (trailingLabel input : Reader α (Option String)) := by
  refine (kind input).bind fun k => ?_
  split
  · exact pure _
  · exact (advance input).bind fun _ => (collect input _).bind fun _ => pure _

theorem skipLine : Advances input (skipLine input : Reader α Unit) :=
  (current input).bind fun _ => (warn _ _).bind fun _ => (advance input).bind fun _ =>
    (takeRun input _).bind fun _ => pure _

theorem expect (wanted : TokenKind) (m : String) :
    Advances input (expect input wanted m : Reader α Token) := by
  refine (current input).bind fun t => ?_
  split
  · exact throw _
  · exact advance input

theorem expectKind (wanted : TokenKind) :
    Advances input (expectKind input wanted : Reader α Token) :=
  (current input).bind fun _ => expect input _ _

theorem atEdge : Advances input (atEdge input : Reader α Bool) := get.bind fun _ => pure _

theorem wrapper? : Advances input (wrapper? input : Reader α (Option DiagramType)) := by
  refine get.bind fun s => ?_
  dsimp only
  split <;> exact pure _

/-! ### Parts of statements -/

theorem edgeRest (name interface : Option String) (source : Token) :
    Advances input (edgeRest input name interface source : Reader α Connector) := by
  refine (current input).bind fun drawn => ?_
  dsimp only
  split
  · exact throw_bind _ _
  · refine (advance input).bind fun _ => (expect input _ _).bind fun _ =>
      (trailingLabel input).bind fun _ => ?_
    split
    · refine (pure _).bind fun _ => get.bind fun _ => (modify fun s => ?_).bind fun _ => pure _
      exact .of_index rfl (.refl s.scope)
    · exact throw_bind _ _

theorem portTarget (id : String) : Advances input (portTarget input id : Reader α PortTarget) := by
  refine (kind input).bind fun k => ?_
  split
  · exact (advance input).bind fun _ => (expect input _ _).bind fun _ =>
      (expect input _ _).bind fun _ => (expect input _ _).bind fun _ => pure _
  · refine (advance input).bind fun word => (expect input _ _).bind fun _ =>
      (expect input _ _).bind fun _ => (expect input _ _).bind fun _ => get.bind fun s => ?_
    split
    · exact throw_bind _ _
    · exact pure _
  · exact (current input).bind fun t => throw _

/-- What is done with a port on a component that an id names, or names not. -/
private theorem portOn (node : String) (made : Port α) (m : String) (opening : Token) :
    Advances input (do
      match (← MonadState.get).addPort? node made with
      | some s =>
        set s
        return some made
      | none =>
        Reader.warn m opening
        return none : Reader α (Option (Port α))) := by
  intro s p s' h
  rw [bind_of_ok (get_run _)] at h
  cases hp : s.addPort? node made with
  | none =>
    rw [hp] at h
    exact ((warn _ _).bind fun _ => pure _) s p s' h
  | some t =>
    rw [hp] at h
    cases h
    exact .addPort? hp

section

variable [Scalar α]

theorem coordinate : Advances input (coordinate input : Reader α α) := by
  refine (expect input _ _).bind fun t => ?_
  split
  · exact pure _
  · exact throw _

theorem position : Advances input (position input : Reader α (Option (α × α))) := by
  refine (kind input).bind fun k => ?_
  split
  · exact pure _
  · exact (advance input).bind fun _ => (coordinate input).bind fun _ =>
      (expect input _ _).bind fun _ => (coordinate input).bind fun _ => pure _

end

theorem blockPart {inner : Reader α Unit} (hinner : Advances input inner) (made : Component α)
    (attached : Bool) (m : String) : Advances input (blockPart input inner made attached m) := by
  intro s tree s' h
  obtain ⟨_, _, hkind, h⟩ := bind_ok.mp h
  cases hkind
  split at h
  · obtain ⟨_, s₁, hadvance, h⟩ := bind_ok.mp h
    obtain ⟨_, _, henter, h⟩ := bind_ok.mp h
    cases henter
    obtain ⟨_, s₂, hblock, h⟩ := bind_ok.mp h
    obtain ⟨_, s₃, hbrace, h⟩ := bind_ok.mp h
    cases h
    have hinside : Moves input (s₁.enter made attached) s₃ :=
      (hinner _ _ _ hblock).trans (expect input _ _ _ _ _ hbrace)
    exact (advance input _ _ _ hadvance).trans hinside.close
  · dsimp only at h
    split at h
    · cases h
      exact .attach s _
    · cases h
      exact .refl s

theorem componentRest {inner : Reader α Unit} (hinner : Advances input inner) (opening : Token)
    (id label : String) (place : Option (α × α)) :
    Advances input (componentRest input inner opening id label place) := by
  intro s tree s' h
  rw [componentRest_eq] at h
  exact (Moves.noted opening id s).trans (blockPart input hinner _ _ _ _ _ _ h)

end Advances

/-! ## Statements -/

/-- Wherever the reader starts, if it succeeds it has taken a token. -/
def Takes (input : Input) (x : Reader α β) : Prop :=
  ∀ s b s', x s = .ok b s' → Moves input s s' ∧ s.index < s'.index

theorem kind_eq (s : State α) : kind input s = .ok (input.token s.index).kind s := rfl

theorem advance_eq {s : State α} (hk : (input.token s.index).kind ≠ .endOfInput) :
    advance input s = .ok (input.token s.index) { s with index := s.index + 1 } := by
  rw [advance, bind_of_ok (show current input s = .ok (input.token s.index) s from rfl),
    if_pos (bne_iff_ne.mpr hk)]
  rfl

namespace Takes

theorem bind {x : Reader α β} {f : β → Reader α γ} (hx : Takes input x)
    (hf : ∀ b, Advances input (f b)) : Takes input (x >>= f) := by
  intro s c s' h
  obtain ⟨b, s₁, hb, h⟩ := bind_ok.mp h
  obtain ⟨hmoves, hlt⟩ := hx s b s₁ hb
  have hrest := hf b s₁ c s' h
  exact ⟨hmoves.trans hrest, hlt.trans_le hrest.index⟩

theorem expect {wanted : TokenKind} (hw : wanted ≠ .endOfInput) (m : String) :
    Takes input (expect input wanted m : Reader α Token) := by
  intro s t s' h
  refine ⟨Advances.expect input wanted m s t s' h, ?_⟩
  obtain ⟨_, _, hc, h⟩ := bind_ok.mp h
  cases hc
  split at h
  · cases h
  · rename_i hk
    have hkind : (input.token s.index).kind = wanted := by simpa using hk
    rw [advance_eq (hkind ▸ hw)] at h
    cases h
    exact Nat.lt_succ_self _

theorem expectKind {wanted : TokenKind} (hw : wanted ≠ .endOfInput) :
    Takes input (expectKind input wanted : Reader α Token) := by
  intro s t s' h
  obtain ⟨_, _, hc, h⟩ := bind_ok.mp h
  cases hc
  exact expect hw _ s t s' h

theorem edge (name : Option String) : Takes input (edge input name : Reader α Connector) := by
  refine (expect (by decide) _).bind fun first => (Advances.kind input).bind fun k => ?_
  dsimp only
  split
  · exact (Advances.advance input).bind (Advances.edgeRest input name (some first.text))
  · exact (Advances.pure first).bind (Advances.edgeRest input name none)

theorem port : Takes input (port input : Reader α (Option (Port α))) := by
  refine (expectKind (by decide)).bind fun opening => (Advances.expect input _ _).bind fun _ =>
    (Advances.expect input _ _).bind fun _ => (Advances.expect input _ _).bind fun _ =>
    (Advances.portTarget input _).bind fun target => (Advances.expect input _ _).bind fun side => ?_
  cases Side.ofName? side.text with
  | none => exact .throw_bind _ _
  | some side =>
    refine (Advances.pure _).bind fun side => (Advances.trailingLabel input).bind fun label => ?_
    cases target with
    | inside connector => exact (Advances.modify fun s => .addInner s _).bind fun _ => .pure _
    | on node => exact .portOn input node _ _ opening

/-- A statement that starts with nothing known takes its first token. -/
theorem skipLine {s s' : State α} (hk : (input.token s.index).kind ≠ .endOfInput)
    (h : skipLine input s = .ok () s') : Moves input s s' ∧ s.index < s'.index := by
  refine ⟨Advances.skipLine input s () s' h, ?_⟩
  obtain ⟨_, _, hc, h⟩ := bind_ok.mp h
  cases hc
  obtain ⟨_, s₁, hwarn, h⟩ := bind_ok.mp h
  cases hwarn
  obtain ⟨_, s₂, hadvance, h⟩ := bind_ok.mp h
  cases (advance_eq (s := s.warned _ _) hk).symm.trans hadvance
  exact Nat.lt_of_succ_le (((Advances.takeRun input _).bind fun _ => .pure _) _ _ _ h).index

variable [Scalar α] {inner : Reader α Unit} (hinner : Advances input inner)

include hinner

theorem component : Takes input (component input inner) := by
  exact (expectKind (by decide)).bind fun opening => (Advances.expect input _ _).bind fun id =>
    (Advances.expect input _ _).bind fun _ => (Advances.collect input _).bind fun label =>
    (Advances.position input).bind fun place =>
    Advances.componentRest input hinner opening id.text label place

/-- A component is read from its bracket on, to which the reader has gone back. -/
theorem bracketStatement : Takes input (bracketStatement input inner) := by
  intro s u s' h
  obtain ⟨_, _, hs, h⟩ := bind_ok.mp h
  cases hs
  obtain ⟨o, s₁, ho, h⟩ := bind_ok.mp h
  obtain ⟨i, s₂, hi, h⟩ := bind_ok.mp h
  obtain ⟨c, s₃, hc, h⟩ := bind_ok.mp h
  obtain ⟨e, s₄, he, h⟩ := bind_ok.mp h
  have hahead : Moves input s s₄ :=
    (Advances.expectKind input _ _ _ _ ho).trans <| (Advances.expect input _ _ _ _ _ hi).trans <|
      (Advances.expect input _ _ _ _ _ hc).trans (Advances.atEdge input _ _ _ he)
  split at h
  · obtain ⟨_, s₅, hedge, h⟩ := bind_ok.mp h
    cases h
    obtain ⟨hmoves, hlt⟩ := edge _ _ _ _ hedge
    exact ⟨hahead.trans hmoves, hahead.index.trans_lt hlt⟩
  · obtain ⟨_, _, hback, h⟩ := bind_ok.mp h
    cases hback
    obtain ⟨_, s₅, hcomponent, h⟩ := bind_ok.mp h
    cases h
    have hback : Moves input s { s₄ with index := s.index } := .of_index rfl hahead.scope
    obtain ⟨hmoves, hlt⟩ := component hinner _ _ _ hcomponent
    exact ⟨hback.trans hmoves, hlt⟩

/-- A statement that is not at the end of input takes a token. -/
theorem statement {s s' : State α} (hk : (input.token s.index).kind ≠ .endOfInput)
    (h : statement input inner s = .ok () s') : Moves input s s' ∧ s.index < s'.index := by
  rw [Reader.statement, bind_of_ok (kind_eq s)] at h
  generalize (input.token s.index).kind = k at h
  split at h
  · obtain ⟨_, s₁, hport, h⟩ := bind_ok.mp h
    cases h
    exact port _ _ _ hport
  · exact bracketStatement hinner _ _ _ h
  · obtain ⟨_, s₁, hedge, h⟩ := bind_ok.mp h
    cases h
    exact edge _ _ _ _ hedge
  · exact skipLine hk h

end Takes

end Reader

end Grammar

end ComponentDiagram
