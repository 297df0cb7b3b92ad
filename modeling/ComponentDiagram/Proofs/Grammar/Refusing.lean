import ComponentDiagram.Proofs.Grammar.Sources
import ComponentDiagram.Proofs.Source.Spelling
import ComponentDiagram.Proofs.Text.Integer

/-! Which failures a reader can have. Tokens that are cut from a text can all be read, so a reader
fails with a syntax error at one of them, or at a coordinate. -/
namespace ComponentDiagram
open Source

/-! ## Tokens that can be read -/

/-- The text of a token is one that its kind can have. -/
structure Token.IsLegible (t : Token) : Prop where
  connector : t.kind.isConnector = true → ∃ kind, Grammar.Reader.connectorKind t = .ok kind
  side : t.kind = .side → ∃ side, Side.ofName? t.text = some side
  number : t.kind = .number → ∃ n, Text.signedDigits? t.text.toList = some n

private theorem side_of_wordKind {word : List Char} (h : wordKind word = .side) :
    ∃ side, Side.ofName? (String.ofList word) = some side := by
  unfold wordKind at h
  split at h
  · cases h
  split at h
  · cases h
  split at h
  · cases h
  split at h
  · rename_i hside
    simp only [Bool.or_eq_true, decide_eq_true_eq] at hside
    rcases hside with ((rfl | rfl) | rfl) | rfl
    · exact ⟨.left, by decide⟩
    · exact ⟨.right, by decide⟩
    · exact ⟨.top, by decide⟩
    · exact ⟨.bottom, by decide⟩
  · cases h

private theorem connectorKind_of_connector? {x : List Char} {k : TokenKind}
    (h : connector? x = some (k, x)) (p : Position) :
    ∃ kind, Grammar.Reader.connectorKind ⟨k, String.ofList x, p⟩ = .ok kind := by
  unfold connector? at h
  split at h
  · cases h
    exact ⟨.delegate, rfl⟩
  split at h
  · cases h
    exact ⟨.plain .long, rfl⟩
  split at h
  · cases h
    exact ⟨.plain .short, rfl⟩
  obtain ⟨mark, hm, he⟩ := Option.map_eq_some_iff.mp h
  cases he
  have haccepts : InterfaceSymbol.accepts (String.ofList x).toList = true := by
    simp [InterfaceSymbol.accepts, hm]
  refine ⟨.interface ⟨String.ofList x, haccepts⟩, ?_⟩
  simp only [Grammar.Reader.connectorKind, InterfaceSymbol.ofString?, dif_pos haccepts]

/-- Digits behind an optional minus sign are an integer. -/
theorem Text.signedDigits?_spelled {cs : List Char} (h : Spells .number cs) :
    ∃ n, Text.signedDigits? cs = some n := by
  obtain ⟨digits, hne, hdigits, rfl | rfl⟩ := h.number
  · exact ⟨_, Text.signedDigits?_digits hne hdigits⟩
  · exact ⟨_, Text.signedDigits?_negative hne hdigits⟩

/-- The text of a token that is cut is one that its kind can have. -/
theorem Source.Spells.isLegible {t : Token} (h : Spells t.kind t.text.toList) : t.IsLegible := by
  obtain ⟨kind, text, p⟩ := t
  obtain ⟨c, tail, hx, hc, hl⟩ := id h
  refine ⟨fun hk => ?_, fun hk => ?_, fun hk => Text.signedDigits?_spelled (hk ▸ h)⟩
  · have hself := connectorKind_of_connector? (h.connector hk) p
    rwa [String.ofList_toList] at hself
  · simp only at hx hl hk
    have htext : text = String.ofList text.toList := (String.ofList_toList).symm
    rw [htext]
    generalize text.toList = x at hx hl ⊢
    have hrule := (lexeme_rule hc).mp hl
    cases hrule with
    | newline => cases hk
    | delimiter _ hd => exact absurd hk (delimiter_plain hd).2.1
    | connector _ hf =>
      have hconnector := isConnector_of_connector? hf
      subst hk
      cases hconnector
    | word => exact side_of_wordKind hk
    | number => cases hk
    | other => cases hk

namespace Grammar

/-! ## Failures -/

inductive Failure.IsSyntax : Failure → Prop
  | intro (error : LocatedError) : IsSyntax (.syntaxError error)

/-- A syntax error at one of the tokens that are read. -/
inductive Failure.IsAt (input : Input) : Failure → Prop
  | intro (m : String) (i : Nat) : IsAt input (.syntaxError (input.errorAt m (input.token i)))

theorem Failure.IsAt.isSyntax {input : Input} {e : Failure} (h : e.IsAt input) : e.IsSyntax := by
  cases h
  exact ⟨_⟩

/-- No syntax error but at one of the tokens that are read. -/
def Failure.IsLocated (input : Input) (e : Failure) : Prop := e.IsSyntax → e.IsAt input

namespace Reader

variable {α β γ : Type}

def FailsWith (e : Failure) (x : Reader α β) (s : State α) : Prop := ∃ s', x s = .error e s'

/-- Every failure of the reader has a property, wherever it starts. -/
def FailsOnly (P : Failure → Prop) (x : Reader α β) : Prop := ∀ e s, FailsWith e x s → P e

theorem failsWith_bind {e : Failure} {x : Reader α β} {f : β → Reader α γ} {s : State α} :
    FailsWith e (x >>= f) s ↔
      FailsWith e x s ∨ ∃ b s₁, x s = .ok b s₁ ∧ FailsWith e (f b) s₁ := by
  change (∃ s', EStateM.bind x f s = _) ↔ _
  rw [EStateM.bind]
  cases h : x s with
  | ok b s₁ => simp [FailsWith, h]
  | error e' s₁ => simp [FailsWith, h]

theorem failsWith_of_ok {e : Failure} {x : Reader α β} {f : β → Reader α γ} {s s₁ : State α} {b : β}
    (h : x s = .ok b s₁) : FailsWith e (x >>= f) s ↔ FailsWith e (f b) s₁ := by
  rw [FailsWith, bind_of_ok h]
  rfl

theorem not_failsWith_of_ok {e : Failure} {x : Reader α β} {s s₁ : State α} {b : β}
    (h : x s = .ok b s₁) : ¬ FailsWith e x s := by
  rintro ⟨s', hs'⟩
  cases h.symm.trans hs'

namespace FailsOnly

section

variable {P : Failure → Prop}

theorem pure (b : β) : FailsOnly P (pure b : Reader α β) := fun _ _ h => nomatch h

theorem get : FailsOnly P (get : Reader α (State α)) := fun _ _ h => nomatch h

theorem set (t : State α) : FailsOnly P (set t : Reader α PUnit) := fun _ _ h => nomatch h

theorem modify (f : State α → State α) : FailsOnly P (modify f : Reader α PUnit) :=
  fun _ _ h => nomatch h

theorem throw {e : Failure} (he : P e) : FailsOnly P (throw e : Reader α β) := by
  rintro e' s ⟨s', h⟩
  cases h
  exact he

/-- What follows need only fail so behind what was read before. -/
theorem bind_of {x : Reader α β} {f : β → Reader α γ} (hx : FailsOnly P x)
    (hf : ∀ s b s₁, x s = .ok b s₁ → FailsOnly P (f b)) : FailsOnly P (x >>= f) := by
  intro e s h
  rcases failsWith_bind.mp h with h | ⟨b, s₁, hb, h⟩
  · exact hx e s h
  · exact hf s b s₁ hb e s₁ h

theorem bind {x : Reader α β} {f : β → Reader α γ} (hx : FailsOnly P x)
    (hf : ∀ b, FailsOnly P (f b)) : FailsOnly P (x >>= f) :=
  hx.bind_of fun _ b _ _ => hf b

theorem located {input : Input} {x : Reader α β} (hx : FailsOnly (Failure.IsAt input) x) :
    FailsOnly (Failure.IsLocated input) x :=
  fun e s h _ => hx e s h

theorem failsWith_bind {input : Input} {x : Reader α β} {f : β → Reader α γ} {e : Failure}
    {s : State α} (hx : FailsOnly (Failure.IsAt input) x) (he : ¬ e.IsSyntax) :
    FailsWith e (x >>= f) s ↔ ∃ b s₁, x s = .ok b s₁ ∧ FailsWith e (f b) s₁ := by
  rw [Reader.failsWith_bind]
  exact ⟨fun h => h.resolve_left fun hf => he (hx e s hf).isSyntax, .inr⟩

theorem failsWith_first (input : Input) {x : Reader α β} {f : β → Reader α γ} {e : Failure}
    {s : State α} (hf : ∀ b, FailsOnly (Failure.IsAt input) (f b)) (he : ¬ e.IsSyntax) :
    FailsWith e (x >>= f) s ↔ FailsWith e x s := by
  rw [Reader.failsWith_bind]
  refine ⟨fun h => h.resolve_right ?_, .inl⟩
  rintro ⟨b, s₁, -, h⟩
  exact he (hf b e s₁ h).isSyntax

/-! ### Readers that take what is there -/

variable (input : Input)

theorem current : FailsOnly P (current input : Reader α Token) := get.bind fun _ => pure _

theorem kind : FailsOnly P (kind input : Reader α TokenKind) :=
  (current input).bind fun _ => pure _

theorem advance : FailsOnly P (advance input : Reader α Token) := by
  refine (current input).bind fun t => ?_
  dsimp only
  split
  · exact (modify _).bind fun _ => pure _
  · exact pure _

theorem takeRun (passes : TokenKind → Bool) :
    FailsOnly P (takeRun input passes : Reader α (List Token)) :=
  get.bind fun _ => (set _).bind fun _ => pure _

theorem skipNewlines : FailsOnly P (skipNewlines input : Reader α Unit) :=
  (takeRun input _).bind fun _ => pure _

theorem collect (stops : List TokenKind) : FailsOnly P (collect input stops : Reader α String) :=
  (takeRun input _).bind fun _ => pure _

theorem trailingLabel : FailsOnly P (trailingLabel input : Reader α (Option String)) := by
  refine (kind input).bind fun k => ?_
  split
  · exact pure _
  · exact (advance input).bind fun _ => (collect input _).bind fun _ => pure _

theorem skipLine : FailsOnly P (skipLine input : Reader α Unit) :=
  (current input).bind fun _ => (modify _).bind fun _ => (advance input).bind fun _ =>
    (takeRun input _).bind fun _ => pure _

theorem atEdge : FailsOnly P (atEdge input : Reader α Bool) := get.bind fun _ => pure _

theorem wrapper? : FailsOnly P (wrapper? input : Reader α (Option DiagramType)) := by
  refine get.bind fun s => ?_
  dsimp only
  split <;> exact pure _

end

/-! ### Readers that want a token -/

variable (input : Input)

theorem failAt (m : String) (i : Nat) :
    FailsOnly (Failure.IsAt input) (failAt input m (input.token i) : Reader α β) :=
  throw (.intro m i)

theorem failAt_bind (m : String) (i : Nat) (f : β → Reader α γ) :
    FailsOnly (Failure.IsAt input) (Reader.failAt input m (input.token i) >>= f) := by
  rintro e s ⟨s', h⟩
  cases h
  exact .intro m i

theorem expect (wanted : TokenKind) (m : String) :
    FailsOnly (Failure.IsAt input) (expect input wanted m : Reader α Token) := by
  refine (current input).bind_of fun s t s₁ ht => ?_
  cases ht
  split
  · exact failAt input m s.index
  · exact advance input

theorem expectKind (wanted : TokenKind) :
    FailsOnly (Failure.IsAt input) (expectKind input wanted : Reader α Token) :=
  (current input).bind fun _ => expect input _ _

/-- The token that is taken is the current one. -/
theorem advance_token {s s₁ : State α} {t : Token} (h : Reader.advance input s = .ok t s₁) :
    t = input.token s.index := by
  obtain ⟨_, _, hc, h⟩ := bind_ok.mp h
  cases hc
  split at h <;> cases h <;> rfl

/-- What is done at the end of a diagram, where some kinds of tokens may not stand. -/
theorem ending (refused : TokenKind → Bool) (m : String) (type : DiagramType) :
    FailsOnly (Failure.IsAt input) (do
      let t ← Reader.current input
      if refused t.kind then
        Reader.failAt input m t
      return (← MonadState.get).document type : Reader α (Document α)) := by
  refine (current input).bind_of fun s t s₁ ht => ?_
  cases ht
  dsimp only
  split
  · exact failAt_bind input _ _ _
  · exact get.bind fun _ => pure _

theorem wrapperEnd (type : DiagramType) :
    FailsOnly (Failure.IsAt input) (wrapperEnd input type : Reader α (Document α)) := by
  exact (expect input _ _).bind fun _ => (skipNewlines input).bind fun _ =>
    ending input (· != .endOfInput) _ _

theorem portTarget (id : String) :
    FailsOnly (Failure.IsAt input) (portTarget input id : Reader α PortTarget) := by
  refine (kind input).bind fun k => ?_
  split
  · exact (advance input).bind fun _ => (expect input _ _).bind fun _ =>
      (expect input _ _).bind fun _ => (expect input _ _).bind fun _ => pure _
  · refine (advance input).bind_of fun s word s₁ hword => ?_
    obtain rfl := advance_token input hword
    refine (expect input _ _).bind fun _ =>
      (expect input _ _).bind fun _ => (expect input _ _).bind fun _ => get.bind fun s => ?_
    split
    · exact (failAt input _ _).bind fun _ => pure _
    · exact pure _
  · refine (current input).bind_of fun s t s₁ ht => ?_
    cases ht
    exact failAt input _ _

variable {input} (hlegible : ∀ i, (input.token i).IsLegible)

include hlegible

private theorem edgeRest (name interface : Option String) (source : Token) :
    FailsOnly (Failure.IsAt input) (edgeRest input name interface source : Reader α Connector) := by
  refine (current input).bind_of fun s drawn s₁ hs => ?_
  cases hs
  cases hd : (input.token s.index).kind.isConnector with
  | false =>
    simp only [Bool.not_false, if_true]
    exact failAt_bind _ _ _ _
  | true =>
    obtain ⟨kind, hkind⟩ := (hlegible s.index).connector hd
    simp only [Bool.not_true, Bool.false_eq_true, if_false, hkind]
    exact (advance input).bind fun _ => (expect input _ _).bind fun _ =>
      (trailingLabel input).bind fun _ => (pure _).bind fun _ => get.bind fun _ =>
      (modify _).bind fun _ => pure _

theorem edge (name : Option String) :
    FailsOnly (Failure.IsAt input) (edge input name : Reader α Connector) := by
  refine (expect input _ _).bind fun first => (kind input).bind fun k => ?_
  dsimp only
  split
  · exact (advance input).bind (edgeRest hlegible name (some first.text))
  · exact (pure first).bind (edgeRest hlegible name none)

omit hlegible in
private theorem expect_kind {wanted : TokenKind} {m : String} {s s₁ : State α} {t : Token}
    (h : Reader.expect input wanted m s = .ok t s₁) :
    t = input.token s.index ∧ t.kind = wanted := by
  obtain ⟨_, _, hc, h⟩ := bind_ok.mp h
  cases hc
  split at h
  · cases h
  · rename_i hk
    obtain ⟨_, _, hc, h⟩ := bind_ok.mp h
    cases hc
    have hkind : (input.token s.index).kind = wanted := by simpa using hk
    split at h <;> cases h <;> exact ⟨rfl, hkind⟩

theorem port : FailsOnly (Failure.IsAt input) (port input : Reader α (Option (Port α))) := by
  refine (expectKind input _).bind fun _ => (expect input _ _).bind fun _ =>
    (expect input _ _).bind fun _ => (expect input _ _).bind fun _ =>
    (portTarget input _).bind fun target => (expect input _ _).bind_of fun s t s₁ ht => ?_
  obtain ⟨rfl, hk⟩ := expect_kind ht
  obtain ⟨side, hside⟩ := (hlegible s.index).side hk
  simp only [hside]
  refine (pure _).bind fun _ => (trailingLabel input).bind fun label => ?_
  split
  · exact (modify _).bind fun _ => pure _
  · refine get.bind fun s => ?_
    split
    · exact (set _).bind fun _ => pure _
    · exact (modify _).bind fun _ => pure _

omit hlegible

/-! ### Readers of coordinates, and what holds them -/

section

variable [Scalar α]

theorem coordinate : FailsOnly (Failure.IsLocated input) (coordinate input : Reader α α) := by
  refine (expect input _ _).located.bind fun t => ?_
  cases hx : (coordinateOf t.text : Except Failure α) with
  | ok x => exact pure x
  | error e =>
    refine throw fun hsyntax => ?_
    -- a coordinate fails for its digits or its size
    cases hsyntax
    rw [coordinateOf] at hx
    split at hx
    · cases hx
    · dsimp only at hx
      split at hx
      · cases hx
      · split at hx <;> cases hx

theorem position :
    FailsOnly (Failure.IsLocated input) (position input : Reader α (Option (α × α))) := by
  refine (kind input).bind fun k => ?_
  split
  · exact pure _
  · exact (advance input).bind fun _ => coordinate.bind fun _ =>
      (expect input _ _).located.bind fun _ => coordinate.bind fun _ => pure _

variable {inner : Reader α Unit} (hinner : FailsOnly (Failure.IsLocated input) inner)

include hinner

omit [Scalar α] in
theorem blockPart (made : Component α) (attached : Bool) (m : String) :
    FailsOnly (Failure.IsLocated input) (blockPart input inner made attached m) := by
  refine (kind input).bind fun k => ?_
  split
  · exact (advance input).bind fun _ => (modify _).bind fun _ => hinner.bind fun _ =>
      (expect input _ _).located.bind fun _ => get.bind fun _ => (modify _).bind fun _ => pure _
  · dsimp only
    split
    · exact (modify _).bind fun _ => pure _
    · exact pure _

omit [Scalar α] in
theorem componentRest (opening : Token) (id label : String) (place : Option (α × α)) :
    FailsOnly (Failure.IsLocated input) (componentRest input inner opening id label place) := by
  intro e s h
  rw [FailsWith, componentRest_eq] at h
  exact blockPart hinner _ _ _ e _ h

theorem component : FailsOnly (Failure.IsLocated input) (component input inner) := by
  exact (expectKind input _).located.bind fun opening => (expect input _ _).located.bind fun id =>
    (expect input _ _).located.bind fun _ => (collect input _).bind fun label =>
    position.bind fun place => componentRest hinner opening id.text label place

include hlegible

theorem bracketStatement :
    FailsOnly (Failure.IsLocated input) (bracketStatement input inner) := by
  refine get.bind fun _ => (expectKind input _).located.bind fun _ =>
    (expect input _ _).located.bind fun _ => (expect input _ _).located.bind fun _ =>
    (atEdge input).bind fun atEdge => ?_
  split
  · exact (edge hlegible _).located.bind fun _ => pure _
  · exact (modify _).bind fun _ => (component hinner).bind fun _ => pure _

theorem statement : FailsOnly (Failure.IsLocated input) (statement input inner) := by
  refine (kind input).bind fun k => ?_
  split
  · exact (port hlegible).located.bind fun _ => pure _
  · exact bracketStatement hlegible hinner
  · exact (edge hlegible _).located.bind fun _ => pure _
  · exact skipLine input

omit hinner

theorem blockTo (fuel : Nat) :
    FailsOnly (Failure.IsLocated input) (blockTo input fuel : Reader α Unit) := by
  induction fuel with
  | zero => exact pure _
  | succ fuel ih =>
    refine (kind input).bind fun k => ?_
    split
    · exact pure _
    · exact pure _
    · exact (advance input).bind fun _ => ih
    · exact (statement hlegible ih).bind fun _ => ih

theorem block : FailsOnly (Failure.IsLocated input) (block input : Reader α Unit) :=
  blockTo hlegible _

theorem plainPart :
    FailsOnly (Failure.IsLocated input) (plainPart input : Reader α (Document α)) := by
  exact (block hlegible).bind fun _ => (ending input (· == .rightBrace) _ _).located

theorem wrappedPart (type : DiagramType) :
    FailsOnly (Failure.IsLocated input) (wrappedPart input type : Reader α (Document α)) := by
  exact (advance input).bind fun _ => (advance input).bind fun _ =>
    (expect input _ _).located.bind fun _ => (skipNewlines input).bind fun _ =>
    (expect input _ _).located.bind fun _ => (block hlegible).bind fun _ =>
    (wrapperEnd input type).located

/-- A reading fails with a syntax error at one of the tokens, or at a coordinate. -/
theorem document :
    FailsOnly (Failure.IsLocated input) (document input : Reader α (Document α)) := by
  refine (skipNewlines input).bind fun _ => (wrapper? input).bind fun type => ?_
  cases type with
  | some type => exact wrappedPart hlegible type
  | none => exact plainPart hlegible

end

end FailsOnly

end Reader

/-! ## Texts -/

theorem legible_token {input : Input} {body : List Token} {last : Token}
    (hin : input.Holds body last) (h : ∀ t ∈ body, t.IsLegible) (i : Nat) :
    (input.token i).IsLegible := by
  have hlast : last.IsLegible := by
    constructor <;> intro hk <;> rw [hin.last] at hk <;> cases hk
  have hall : ∀ t ∈ body ++ [last], t.IsLegible :=
    List.forall_mem_append.mpr ⟨h, List.forall_mem_singleton.mpr hlast⟩
  rw [Input.token, hin.tokens]
  cases hi : (body ++ [last]).toArray[i]? with
  | some t => exact hall t (by simpa using Array.mem_of_getElem? hi)
  | none => simpa using hlast

theorem legible_solid (text : String) : ∀ t ∈ solidTokens text, t.IsLegible := by
  intro t ht
  have hcut : t.unplaced ∈ cut text.toList := List.mem_map_of_mem ht
  exact Spells.isLegible (t := t) (isToken_of_mem_cut hcut).spells

variable {α : Type} [Scalar α]

/-- A text fails as the reader of its tokens does. -/
theorem parse_error {text : String} {file : Option Path} {e : Failure} :
    (parse text file : Except Failure (Document α)) = .error e ↔
      Reader.FailsWith e (Reader.document (Input.ofText text file) : Reader α (Document α)) {} := by
  rw [parse, readInput, Reader.FailsWith]
  cases Reader.document (α := α) (Input.ofText text file) {} with
  | ok doc s => simp
  | error e' s => simp

end Grammar

end ComponentDiagram
