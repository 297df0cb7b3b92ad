import ComponentDiagram.Proofs.Grammar.Acceptance
import ComponentDiagram.Proofs.Grammar.InStep

/-! A whole reading in step with another: statements, blocks and documents. -/
namespace ComponentDiagram.Grammar
open Tape

variable {α : Type} {E : Failure → Failure → Prop} {A B : Tape}
  {R : List Token → List Token → Prop} {S : State α → State α → Prop} {ts us : List Token}
  {s s' : State α}

/-- What two statements or blocks leave behind: both readers stand further on. -/
abbrev Leaves (A B : Tape) (R : List Token → List Token → Prop) (S : State α → State α → Prop)
    {β : Type} (ts us : List Token) : β → State α → β → State α → Prop :=
  fun _ s _ s' => Further A B R S ts us s s'

/-- Blocks that start in step end in step, if fewer tokens are left than the bounds. Line ends at
the start do not count. -/
def BlocksTogether (A B : Tape) (R : List Token → List Token → Prop) (S : State α → State α → Prop)
    (E : Failure → Failure → Prop) (n n' : Nat) (block block' : Reader α Unit) : Prop :=
  ∀ {ts us s s'}, ts.length < n → us.length < n' →
    Level A B (fun ts us => R (afterLines ts) (afterLines us)) ts us → S s s' →
    Together E (Leaves A B R S ts us) (block (facing A.body ts s)) (block' (facing B.body us s'))

namespace Reader

section

variable (h : Abreast A B R S E)

include h

/-! ## Edges -/

private theorem edgeRest_together (hl : Level A B R ts us) (hs : S s s')
    (name interface : Option String) {source source' : Token}
    (hsource : source'.text = source.text) : Together E (Leaves A B R S ts us)
      (edgeRest A.input name interface source (facing A.body ts s))
      (edgeRest B.input name interface source' (facing B.body us s')) := by
  have hkind := h.headD_kind hl.rel
  rw [edgeRest, bind_of_ok (current_facing A.holds hl.left s), edgeRest,
    bind_of_ok (current_facing B.holds hl.right s'), hkind, hsource]
  cases hd : (ts.headD A.last).kind.isConnector with
  | false => exact .error (h.missing _ hl.rel)
  | true =>
    cases ts with
    | nil =>
      rw [List.headD_nil, A.holds.last] at hd
      cases hd
    | cons drawn ts =>
      obtain ⟨drawn', us, rfl, hk⟩ := h.step.cons_left hl.rel
      obtain ⟨htext, hrest⟩ := h.step.tail hl.rel (isFixed_ne (isFixed_of_isConnector hd)).2
      have hl₁ := hl.mono hrest (List.suffix_cons drawn ts) (List.suffix_cons drawn' us)
      simp only [Bool.not_true, Bool.false_eq_true, if_false, List.headD_cons]
      rw [bind_of_ok (advance_facing A.holds hl.left s),
        bind_of_ok (advance_facing B.holds hl.right s'), connectorKind_of_kind hk htext]
      refine (expect_together h (by rfl) hl₁ _ s s').bind fun target _ target' _ _ htook => ?_
      cases htook with
      | @mk _ rest _ rest' _ _ ht hl₂ =>
        obtain ⟨hlabel, hrest⟩ := h.step.similarity.trailing hl₂.rel
        rw [bind_of_ok (trailingLabel_facing A.holds hl₂.left s),
          bind_of_ok (trailingLabel_facing B.holds hl₂.right s'), ht, ← hlabel]
        cases connectorKind drawn with
        | error e => exact .error (h.same e)
        | ok kind =>
          have hconnect : S
              (s.connect name interface source.text kind target.text (trailing rest).1)
              (s'.connect name interface source.text kind target.text (trailing rest).1) :=
            h.act_some hs (.edge name interface source.text kind target.text _) _ rfl rfl rfl
          exact .ok (Further.mono (Level.further hrest hconnect)
            ((trailing_suffix _).trans ⟨[_, _], rfl⟩) ((trailing_suffix _).trans ⟨[_, _], rfl⟩))

theorem edge_together (hl : Level A B R ts us) (hs : S s s') (name : Option String) :
    Together E (Leaves A B R S ts.tail us.tail) (edge A.input name (facing A.body ts s))
      (edge B.input name (facing B.body us s')) := by
  rw [edge, edge]
  refine (expect_together h (by rfl) hl _ s s').bind fun first _ first' _ _ htook => ?_
  cases htook with
  | @mk _ ts _ us _ _ hfirst hl₁ =>
    rw [bind_of_ok (kind_facing A.holds hl₁.left s), bind_of_ok (kind_facing B.holds hl₁.right s'),
      h.step.headKind hl₁.rel]
    by_cases hk : headKind us = .identifier
    · cases us with
      | nil => cases hk
      | cons source' us =>
        obtain ⟨source, ts, rfl, hsource⟩ := h.step.flip.cons_left hl₁.rel
        obtain ⟨htext, hrest⟩ := h.step.flip.tail hl₁.rel (by
          rw [show source'.kind = _ from hk]
          decide)
        have hl₂ := hl₁.mono hrest (List.suffix_cons source ts) (List.suffix_cons source' us)
        simp only [hk, beq_self_eq_true, if_true]
        rw [bind_of_ok (advance_facing A.holds hl₁.left s),
          bind_of_ok (advance_facing B.holds hl₁.right s'), hfirst]
        exact (edgeRest_together h hl₂ hs name (some first.text) htext.symm).mono
          fun _ _ _ _ hfurther => hfurther.mono (List.suffix_cons source ts)
            (List.suffix_cons source' us)
    · simp only [beq_eq_false_iff_ne.mpr hk, Bool.false_eq_true, if_false]
      exact edgeRest_together h hl₁ hs name none hfirst

/-! ## Ports -/

/-- What two readers of a target find: the same target, on an open component if it asks for one. -/
def SameTarget (A B : Tape) (R : List Token → List Token → Prop) (s s' : State α)
    (ts us : List Token) (target : PortTarget) (t : State α) (target' : PortTarget) (t' : State α) :
    Prop :=
  ∃ ts₁ us₁, target' = target ∧ (∀ connector, target = .inside connector →
    s.scope.isEmpty = false) ∧ ts₁ <:+ ts ∧ us₁ <:+ us ∧ Level A B R ts₁ us₁ ∧
    t = facing A.body ts₁ s ∧ t' = facing B.body us₁ s'

theorem portTarget_together (hl : Level A B R ts us) (hs : S s s') (id : String) :
    Together E (SameTarget A B R s s' ts us) (portTarget A.input id (facing A.body ts s))
      (portTarget B.input id (facing B.body us s')) := by
  rw [portTarget, bind_of_ok (kind_facing A.holds hl.left s), portTarget,
    bind_of_ok (kind_facing B.holds hl.right s'), h.step.headKind hl.rel]
  cases us with
  | nil =>
    obtain rfl := h.step.flip.nil_left hl.rel
    simp only [headKind]
    rw [bind_of_ok (current_nil A.holds s), bind_of_ok (current_nil B.holds s')]
    exact .error (h.missing _ hl.rel)
  | cons word' us =>
    obtain ⟨word, ts, rfl, hword⟩ := h.step.flip.cons_left hl.rel
    by_cases hon : word'.kind = .onWord
    · obtain ⟨-, hrest⟩ := h.step.flip.tail hl.rel (by rw [hon]; decide)
      have hl₁ := hl.mono hrest (List.suffix_cons word ts) (List.suffix_cons word' us)
      simp only [headKind, hon]
      rw [bind_of_ok (advance_facing A.holds hl.left s),
        bind_of_ok (advance_facing B.holds hl.right s')]
      refine brackets_together h (expect_together h (by rfl) hl₁ _ s s')
        (fun i j hij => by rw [hij]) ?_
      rintro o i c rest o' i' c' rest' rfl rfl - - hi hl₂
      refine .ok ⟨rest, rest', by rw [hi], ?_, ⟨[_, _, _, _], rfl⟩, ⟨[_, _, _, _], rfl⟩, hl₂, rfl,
        rfl⟩
      rintro connector hc
      cases hc
    by_cases hwith : word'.kind = .withWord
    · obtain ⟨-, hrest⟩ := h.step.flip.tail hl.rel (by rw [hwith]; decide)
      have hl₁ := hl.mono hrest (List.suffix_cons word ts) (List.suffix_cons word' us)
      simp only [headKind, hwith]
      rw [bind_of_ok (advance_facing A.holds hl.left s),
        bind_of_ok (advance_facing B.holds hl.right s')]
      refine brackets_together h (expect_together h (by rfl) hl₁ _ s s')
        (fun i j hij => by rw [hij]) ?_
      rintro o i c rest o' i' c' rest' rfl rfl - - hi hl₂
      rw [bind_of_ok (get_run _), bind_of_ok (get_run _), facing_scope, facing_scope, h.isEmpty hs]
      cases hempty : s.scope.isEmpty with
      | true =>
        rw [hi]
        exact .error (h.missing _ hl.rel)
      | false =>
        exact .ok ⟨rest, rest', by rw [hi], fun _ _ => hempty, ⟨[_, _, _, _], rfl⟩,
          ⟨[_, _, _, _], rfl⟩, hl₂, rfl, rfl⟩
    · simp only [headKind]
      rw [bind_of_ok (current_cons A.holds hl.left s),
        bind_of_ok (current_cons B.holds hl.right s')]
      exact .error (h.missing _ hl.rel)

omit h in
private theorem act_port_some (limit : Option Nat) (opening : Token) (id : String)
    {target : PortTarget} (side : Side) (label : Option String)
    (hscope : ∀ connector, target = .inside connector → s.scope.isEmpty = false) :
    ∃ s₁, (Clause.port opening id target side label).act limit s = some s₁ := by
  cases target with
  | on node => exact ⟨_, rfl⟩
  | inside connector =>
    rw [Clause.act]
    simp only [hscope connector rfl, Bool.false_eq_true, if_false]
    exact ⟨_, rfl⟩

theorem port_together (hl : Level A B R ts us) (hs : S s s') :
    Together E (Leaves A B R S ts.tail us.tail) (port A.input (facing A.body ts s))
      (port B.input (facing B.body us s')) := by
  rw [port, port]
  refine (expectKind_together h (by rfl) hl s s').bind fun p _ p' _ _ htook => ?_
  cases htook with
  | @mk _ ts _ us hp hp' htext hl₁ =>
    refine brackets_together h (expect_together h (by rfl) hl₁ _ s s')
      (fun i j hij => by rw [hij]) ?_
    rintro o i c ts o' i' c' us rfl rfl - - hi hl₂
    rw [hi]
    refine (portTarget_together h hl₂ hs i.text).bind fun _ _ target _ _ hsame => ?_
    obtain ⟨ts₁, us₁, rfl, hscope, hts, hus, hl₃, rfl, rfl⟩ := hsame
    refine (expect_together h (by rfl) hl₃ _ s s').bind fun t _ t' _ _ htook => ?_
    cases htook with
    | @mk _ rest _ rest' _ _ ht hl₄ =>
      rw [ht]
      cases hside : Side.ofName? t.text with
      | none => exact .error (h.same _)
      | some side =>
        obtain ⟨hlabel, hrest⟩ := h.step.similarity.trailing hl₄.rel
        have hscope' : ∀ connector, target = .inside connector → s'.scope.isEmpty = false :=
          fun connector hc => (h.isEmpty hs).trans (hscope connector hc)
        obtain ⟨s₁, ha⟩ :=
          act_port_some A.input.depthLimit p i.text side (trailing rest).1 hscope
        obtain ⟨s₁', ha'⟩ :=
          act_port_some B.input.depthLimit p' i.text side (trailing rest').1 hscope'
        obtain ⟨r, hr⟩ := (port_tail A.holds hl₄.left hscope).mpr ⟨s₁, ha, rfl⟩
        obtain ⟨r', hr'⟩ := (port_tail B.holds hl₄.right hscope').mpr ⟨s₁', ha', rfl⟩
        have hact : S s₁ s₁' := by
          refine h.act_some hs _ _ ?_ ha ha'
          rw [Clause.unplaced, Clause.unplaced, unplaced_eq (hp'.trans hp.symm) htext, hlabel]
        refine Together.of_eq (.ok (Further.mono (Level.further hrest hact) ?_ ?_)) hr hr'
        · exact (((trailing_suffix rest).trans (List.suffix_cons t rest)).trans hts).trans
            ⟨[_, _, _], rfl⟩
        · exact (((trailing_suffix rest').trans (List.suffix_cons t' rest')).trans hus).trans
            ⟨[_, _, _], rfl⟩

end

/-! ## Components -/

section

variable [Scalar α] (h : Abreast A B R S E)

include h

omit [Scalar α] in
private theorem componentRest_together {n n' : Nat} {block block' : Reader α Unit}
    (hb : BlocksTogether A B R S E n n' block block') (hl : Level A B R ts us)
    (ht : ts.length ≤ n) (hu : us.length ≤ n') (hs : S s s') {opening opening' : Token}
    (ho : opening'.unplaced = opening.unplaced) (id label : String) (place : Option (α × α)) :
    Together E (Leaves A B R S ts us)
      (componentRest A.input block opening id label place (facing A.body ts s))
      (componentRest B.input block' opening' id label place (facing B.body us s')) := by
  have hact (opens : Bool) := h.act (.component opening id label place opens)
    (.component opening' id label place opens) hs (by rw [Clause.unplaced, Clause.unplaced, ho])
  rw [componentRest_facing, componentRest_facing]
  by_cases hk : headKind ts = .leftBrace
  · cases ts with
    | nil => cases hk
    | cons t ts =>
      obtain ⟨u, us, rfl, hku⟩ := h.step.cons_left hl.rel
      obtain ⟨-, hrest⟩ := h.step.tail hl.rel (by
        rw [show t.kind = _ from hk]
        decide)
      have hl₁ := hl.mono hrest (List.suffix_cons t ts) (List.suffix_cons u us)
      have henter : S
          ((noted A.input.depthLimit opening id s).enter (written id label place)
            (withinLimit A.input.depthLimit s.scope.length))
          ((noted B.input.depthLimit opening' id s').enter (written id label place)
            (withinLimit B.input.depthLimit s'.scope.length)) := by
        cases hact true with
        | some hst => exact hst
      rw [blockPart_open A.holds _ _ _ _ hl.left hk, blockPart_open B.holds _ _ _ _ hl.right
        (hku.trans hk)]
      refine (hb ht hu ⟨h.step.lines hrest, hl₁.left, hl₁.right⟩ henter).bind
        fun _ _ _ _ _ hleft => ?_
      obtain ⟨ts₁, us₁, s₁, s₁', hts, hus, hr, hs₁, rfl, rfl⟩ := hleft
      refine (expect_together h (by rfl) (hl₁.mono hr hts hus) _ s₁ s₁').bind
        fun _ _ _ _ _ htook => ?_
      cases htook with
      | @mk _ ts₂ _ us₂ _ _ _ hl₂ =>
        refine .ok ⟨ts₂, us₂, s₁.close, s₁'.close, ?_, ?_, hl₂.rel, h.close hs₁,
          close_facing .., close_facing ..⟩
        · exact (List.suffix_cons _ ts₂).trans (hts.trans (List.suffix_cons t ts))
        · exact (List.suffix_cons _ us₂).trans (hus.trans (List.suffix_cons u us))
  · rw [blockPart_closed A.holds _ _ _ _ hl.left hk, blockPart_closed B.holds _ _ _ _ hl.right
      (h.step.headKind hl.rel ▸ hk)]
    refine .ok (Level.further hl.rel ?_)
    cases hact false with
    | some hst => exact hst

/-- Two readers return one value and stand further on, in the states they were in. -/
def Agree (A B : Tape) (R : List Token → List Token → Prop) (s s' : State α) (ts us : List Token)
    {β : Type} (b : β) (t : State α) (b' : β) (t' : State α) : Prop :=
  ∃ ts₁ us₁, b' = b ∧ ts₁ <:+ ts ∧ us₁ <:+ us ∧ Level A B R ts₁ us₁ ∧
    t = facing A.body ts₁ s ∧ t' = facing B.body us₁ s'

private theorem coordinate_together (hl : Level A B R ts us) (s s' : State α) :
    Together E (Agree A B R s s' ts us) ((coordinate A.input : Reader α α) (facing A.body ts s))
      (coordinate B.input (facing B.body us s')) := by
  rw [coordinate, coordinate]
  refine (expect_together h (by rfl) hl _ s s').bind fun t _ t' _ _ htook => ?_
  cases htook with
  | @mk _ ts₁ _ us₁ _ _ htext hl₁ =>
    rw [htext]
    cases coordinateOf (α := α) t.text with
    | error e => exact .error (h.same e)
    | ok x =>
      exact .ok ⟨ts₁, us₁, rfl, List.suffix_cons t ts₁, List.suffix_cons t' us₁, hl₁, rfl, rfl⟩

private theorem position_together (hl : Level A B R ts us) (s s' : State α) :
    Together E (Agree A B R s s' ts us)
      ((position A.input : Reader α (Option (α × α))) (facing A.body ts s))
      (position B.input (facing B.body us s')) := by
  rw [position, bind_of_ok (kind_facing A.holds hl.left s), position,
    bind_of_ok (kind_facing B.holds hl.right s'), h.step.headKind hl.rel]
  by_cases hk : headKind us = .atSign
  · cases us with
    | nil => cases hk
    | cons sign' us =>
      obtain ⟨sign, ts, rfl, -⟩ := h.step.flip.cons_left hl.rel
      obtain ⟨-, hrest⟩ := h.step.flip.tail hl.rel (by
        rw [show sign'.kind = _ from hk]
        decide)
      have hl₁ := hl.mono hrest (List.suffix_cons sign ts) (List.suffix_cons sign' us)
      rw [if_neg (by simp [hk]), if_neg (by simp [hk]),
        bind_of_ok (advance_facing A.holds hl.left s),
        bind_of_ok (advance_facing B.holds hl.right s')]
      refine (coordinate_together h hl₁ s s').bind fun _ _ x _ _ hagree => ?_
      obtain ⟨ts₁, us₁, rfl, hts, hus, hl₂, rfl, rfl⟩ := hagree
      refine (expect_together h (by rfl) hl₂ _ s s').bind fun comma _ comma' _ _ htook => ?_
      cases htook with
      | @mk _ ts₂ _ us₂ _ _ _ hl₃ =>
        refine (coordinate_together h hl₃ s s').bind fun _ _ y _ _ hagree => ?_
        obtain ⟨ts₃, us₃, rfl, hts', hus', hl₄, rfl, rfl⟩ := hagree
        refine .ok ⟨ts₃, us₃, rfl, ?_, ?_, hl₄, rfl, rfl⟩
        · exact ((hts'.trans (List.suffix_cons comma ts₂)).trans hts).trans
            (List.suffix_cons sign ts)
        · exact ((hus'.trans (List.suffix_cons comma' us₂)).trans hus).trans
            (List.suffix_cons sign' us)
  · rw [if_pos (by simp [hk]), if_pos (by simp [hk])]
    exact .ok ⟨ts, us, rfl, List.suffix_rfl, List.suffix_rfl, hl, rfl, rfl⟩

theorem component_together {n n' : Nat} {block block' : Reader α Unit}
    (hb : BlocksTogether A B R S E n n' block block') (hl : Level A B R ts us)
    (ht : ts.tail.length ≤ n) (hu : us.tail.length ≤ n') (hs : S s s') :
    Together E (Leaves A B R S ts.tail us.tail) (component A.input block (facing A.body ts s))
      (component B.input block' (facing B.body us s')) := by
  rw [component, component]
  refine brackets_together h (expectKind_together h (by rfl) hl s s')
    (fun i j hij => by rw [hij]) ?_
  rintro o i c rest o' i' c' rest' rfl rfl - ho hi hl₁
  obtain ⟨htexts, hdrop⟩ := h.step.similarity.run isRun_inHead hl₁.rel
  have hl₂ := hl₁.mono hdrop (List.dropWhile_suffix _) (List.dropWhile_suffix _)
  have hts₂ : rest.dropWhile inHead <:+ (o :: i :: c :: rest).tail :=
    (List.dropWhile_suffix _).trans ⟨[_, _], rfl⟩
  have hus₂ : rest'.dropWhile inHead <:+ (o' :: i' :: c' :: rest').tail :=
    (List.dropWhile_suffix _).trans ⟨[_, _], rfl⟩
  rw [hi, bind_of_ok (collect_facing A.holds hl₁.left s),
    bind_of_ok (collect_facing B.holds hl₁.right s')]
  refine (position_together h hl₂ s s').bind fun _ _ place _ _ hagree => ?_
  obtain ⟨ts₃, us₃, rfl, hts, hus, hl₃, rfl, rfl⟩ := hagree
  have hts₃ := hts.trans hts₂
  have hus₃ := hus.trans hus₂
  have htogether := componentRest_together h hb hl₃ (hts₃.length_le.trans ht)
    (hus₃.length_le.trans hu) hs ho i.text (joined (rest.takeWhile inHead)) place
  refine Together.of_eq (htogether.mono fun _ _ _ _ hfurther => hfurther.mono hts₃ hus₃) rfl ?_
  rw [htexts]
  rfl

/-! ## Statements -/

private theorem bracketStatement_together {n n' : Nat} {block block' : Reader α Unit}
    (hb : BlocksTogether A B R S E n n' block block') (hl : Level A B R ts us)
    (ht : ts.tail.length ≤ n) (hu : us.tail.length ≤ n') (hs : S s s') :
    Together E (Leaves A B R S ts.tail us.tail)
      (bracketStatement A.input block (facing A.body ts s))
      (bracketStatement B.input block' (facing B.body us s')) := by
  rw [bracketStatement, bind_of_ok (get_run _), bracketStatement, bind_of_ok (get_run _)]
  refine brackets_together h (expectKind_together h (by rfl) hl s s')
    (fun i j hij => by rw [hij]) ?_
  rintro o i c rest o' i' c' rest' rfl rfl - - hi hl₁
  rw [hi, bind_of_ok (atEdge_facing A.holds hl₁.left s),
    bind_of_ok (atEdge_facing B.holds hl₁.right s'), h.step.similarity.startsEdge hl₁.rel]
  cases startsEdge rest' with
  | true =>
    simp only [if_true]
    refine (edge_together h hl₁ hs (some i.text)).bind fun _ _ _ _ _ hleft => .ok ?_
    exact hleft.mono ((List.tail_suffix rest).trans ⟨[_, _], rfl⟩)
      ((List.tail_suffix rest').trans ⟨[_, _], rfl⟩)
  | false =>
    simp only [Bool.false_eq_true, if_false]
    rw [bind_of_ok (modify_run _ _), bind_of_ok (modify_run _ _)]
    exact (component_together h hb hl ht hu hs).bind fun _ _ _ _ _ hleft => .ok hleft

omit [Scalar α] in
private theorem skipLine_together {t u : Token} (hl : Level A B R (t :: ts) (u :: us))
    (ht : t.kind ≠ .newline) (hs : S s s') : Together E (Leaves A B R S ts us)
      (skipLine A.input (facing A.body (t :: ts) s))
      (skipLine B.input (facing B.body (u :: us) s')) := by
  obtain ⟨htext, hrest⟩ := h.step.tail hl.rel ht
  have hk : u.kind = t.kind := h.headD_kind hl.rel
  rw [skipLine_facing A.holds hl.left, skipLine_facing B.holds hl.right]
  refine .ok (Further.mono (Level.further (h.step.run isRun_inLine hrest).2 ?_)
    (List.dropWhile_suffix _) (List.dropWhile_suffix _))
  exact h.act_some hs (.skipped t) (.skipped u)
    (congrArg Clause.skipped (unplaced_eq hk htext)) rfl rfl

theorem statement_together {n n' : Nat} {block block' : Reader α Unit}
    (hb : BlocksTogether A B R S E n n' block block') {t u : Token}
    (hl : Level A B R (t :: ts) (u :: us)) (hn : t.kind ≠ .newline) (ht : ts.length ≤ n)
    (hu : us.length ≤ n') (hs : S s s') : Together E (Leaves A B R S ts us)
      (statement A.input block (facing A.body (t :: ts) s))
      (statement B.input block' (facing B.body (u :: us) s')) := by
  have hk : u.kind = t.kind := h.headD_kind hl.rel
  rw [statement, bind_of_ok (kind_facing A.holds hl.left s), statement,
    bind_of_ok (kind_facing B.holds hl.right s')]
  by_cases hport : t.kind = .portWord
  · simp only [headKind, hk, hport]
    exact (port_together h hl hs).bind fun _ _ _ _ _ hleft => .ok hleft
  by_cases hbracket : t.kind = .leftBracket
  · simp only [headKind, hk, hbracket]
    exact bracketStatement_together h hb hl ht hu hs
  by_cases hid : t.kind = .identifier
  · simp only [headKind, hk, hid]
    exact (edge_together h hl hs none).bind fun _ _ _ _ _ hleft => .ok hleft
  · simp only [headKind, hk]
    exact skipLine_together h hl hn hs

end

end Reader

/-! ## Blocks -/

variable [Scalar α]

/-- Line ends at the start of a block are passed. -/
theorem blockTo_afterLines {input : Input} {body : List Token} {last : Token}
    (hin : input.Holds body last) {fuel : Nat} {ts : List Token} (hs : ts <:+ body)
    (hf : ts.length < fuel) (s : State α) : ∃ fuel', (afterLines ts).length < fuel' ∧
      fuel' ≤ fuel ∧ Reader.blockTo input fuel (facing body ts s) =
        Reader.blockTo input fuel' (facing body (afterLines ts) s) := by
  induction ts generalizing fuel with
  | nil => exact ⟨fuel, hf, le_rfl, rfl⟩
  | cons t ts ih =>
    cases fuel with
    | zero => exact absurd hf (Nat.not_lt_zero _)
    | succ fuel =>
      by_cases hn : t.kind = .newline
      · rw [blockTo_newline hin hs hn]
        obtain ⟨fuel', hlen, hle, he⟩ := ih (suffix_of_cons hs) (Nat.lt_of_succ_lt_succ hf)
        rw [afterLines_newline hn]
        exact ⟨fuel', hlen, hle.trans (Nat.le_succ fuel), he⟩
      · have hlines : afterLines (t :: ts) = t :: ts := afterLines_self hn
        rw [hlines]
        exact ⟨fuel + 1, hf, le_rfl, rfl⟩

theorem headKind_afterLines (ts : List Token) : headKind (afterLines ts) ≠ .newline := by
  intro hk
  cases he : afterLines ts with
  | nil => rw [he] at hk; cases hk
  | cons t rest =>
    have hhead := List.head?_dropWhile_not (fun t : Token => t.kind == .newline) ts
    rw [show ts.dropWhile _ = t :: rest from he] at hhead
    rw [he] at hk
    simp [show t.kind = _ from hk] at hhead

/-- Blocks that start in step end in step. -/
theorem blockTo_together (h : Abreast A B R S E) (n n' : Nat) : BlocksTogether A B R S E n n'
    (Reader.blockTo (α := α) A.input n) (Reader.blockTo B.input n') := by
  induction n using Nat.strong_induction_on generalizing n' with
  | _ n ih =>
    intro ts us s s' ht hu hl hs
    obtain ⟨m, hm, hmn, he⟩ := blockTo_afterLines A.holds hl.left ht s
    obtain ⟨m', hm', -, he'⟩ := blockTo_afterLines B.holds hl.right hu s'
    have hl₁ : Level A B R (afterLines ts) (afterLines us) :=
      ⟨hl.rel, afterLines_suffix hl.left, afterLines_suffix hl.right⟩
    have hline := headKind_afterLines ts
    refine Together.of_eq ?_ he he'
    suffices hsuffices : Together E (Leaves A B R S (afterLines ts) (afterLines us))
        (Reader.blockTo A.input m (facing A.body (afterLines ts) s))
        (Reader.blockTo B.input m' (facing B.body (afterLines us) s')) from
      hsuffices.mono fun _ _ _ _ hleft =>
        hleft.mono (List.dropWhile_suffix _) (List.dropWhile_suffix _)
    generalize afterLines ts = ts₁ at *
    generalize afterLines us = us₁ at *
    by_cases hend : AtEnd ts₁
    · have hend' : AtEnd us₁ := by
        rcases hend with rfl | hend
        · exact .inl (h.step.nil_left hl₁.rel)
        · exact .inr (h.step.headKind hl₁.rel ▸ hend)
      rw [blockTo_atEnd A.holds hl₁.left hend, blockTo_atEnd B.holds hl₁.right hend']
      exact .ok (Level.further hl₁.rel hs)
    cases ts₁ with
    | nil => exact absurd (.inl rfl) hend
    | cons t ts₁ =>
      obtain ⟨u, us₁, rfl, hk⟩ := h.step.cons_left hl₁.rel
      have hn : t.kind ≠ .newline := hline
      have hc : t.kind ≠ .rightBrace := fun hc => hend (.inr hc)
      cases m with
      | zero => exact absurd hm (Nat.not_lt_zero _)
      | succ m =>
        cases m' with
        | zero => exact absurd hm' (Nat.not_lt_zero _)
        | succ m' =>
          have hlen : ts₁.length < m := Nat.lt_of_succ_lt_succ hm
          have hlen' : us₁.length < m' := Nat.lt_of_succ_lt_succ hm'
          rw [blockTo_statement A.holds hl₁.left hn hc,
            blockTo_statement B.holds hl₁.right (hk ▸ hn) (hk ▸ hc)]
          refine (Reader.statement_together h (ih m hmn m') hl₁ hn hlen.le hlen'.le hs).bind
            fun _ _ _ _ _ hleft => ?_
          obtain ⟨ts₂, us₂, s₁, s₁', hts, hus, hr, hs₁, rfl, rfl⟩ := hleft
          refine (ih m hmn m' (hts.length_le.trans_lt hlen) (hus.length_le.trans_lt hlen')
            ⟨h.step.lines hr, ?_, ?_⟩ hs₁).mono fun _ _ _ _ hleft =>
              hleft.mono (hts.trans (List.suffix_cons t ts₁)) (hus.trans (List.suffix_cons u us₁))
          · exact hts.trans (suffix_of_cons hl₁.left)
          · exact hus.trans (suffix_of_cons hl₁.right)

private theorem length_lt_block (A : Tape) {ts : List Token} (hs : ts <:+ A.body) :
    ts.length < A.input.tokens.size + 1 := by
  have hlen := hs.length_le
  rw [A.holds.tokens]
  simp only [List.size_toArray, List.length_append, List.length_singleton]
  omega

theorem block_together (h : Abreast A B R S E)
    (hl : Level A B (fun ts us => R (afterLines ts) (afterLines us)) ts us) (hs : S s s') :
    Together E (Leaves A B R S ts us) (Reader.block (α := α) A.input (facing A.body ts s))
      (Reader.block B.input (facing B.body us s')) :=
  blockTo_together h _ _ (length_lt_block A hl.left) (length_lt_block B hl.right) hl hs

/-! ## Documents -/

/-- Two documents of one type, made by related states that leave nothing open. -/
def Documents (S : State α → State α → Prop) (doc doc' : Document α) : Prop :=
  ∃ type s s', S s s' ∧ s.scope = [] ∧ doc = s.document type ∧ doc' = s'.document type

/-- The state behind a block that is read from the start leaves nothing open. -/
private theorem scope_of_block (A : Tape) {ts us : List Token} (hs : ts <:+ A.body) {s : State α}
    (hb : Reader.block A.input (facing A.body ts {}) = .ok () (facing A.body us s)) :
    s.scope = [] := by
  obtain ⟨_, _, s₁, -, -, -, hscope, he⟩ := (block_ok A.holds hs rfl).mp hb
  have hs := congrArg State.scope he
  exact hs.trans hscope

private theorem plain_together (h : Abreast A B R S E) (hl : Level A B R ts us)
    (hs : S ({} : State α) {}) : Together E (fun doc _ doc' _ => Documents S doc doc')
      (Reader.plainPart A.input (facing A.body ts {}))
      (Reader.plainPart B.input (facing B.body us {})) := by
  rw [Reader.plainPart, Reader.plainPart]
  refine (block_together h ⟨h.step.lines hl.rel, hl.left, hl.right⟩ hs).bind
    fun _ _ _ _ hblock hleft => ?_
  obtain ⟨ts₁, us₁, s, s', hts, hus, hr, hs, rfl, rfl⟩ := hleft
  have hl₁ := hl.mono hr hts hus
  have hscope := scope_of_block A hl.left hblock
  rw [Reader.bind_of_ok (Reader.current_facing A.holds hl₁.left s),
    Reader.bind_of_ok (Reader.current_facing B.holds hl₁.right s'), h.headD_kind hr]
  by_cases hk : (ts₁.headD A.last).kind = .rightBrace
  · simp only [hk, beq_self_eq_true, if_true]
    exact .error (h.missing _ hr)
  · simp only [beq_eq_false_iff_ne.mpr hk, Bool.false_eq_true, if_false]
    exact .ok ⟨.component, s, s', hs, hscope, rfl, rfl⟩

omit [Scalar α] in
private theorem Abreast.lines (h : Abreast A B R S E) (hl : Level A B R ts us) :
    Level A B R (afterLines ts) (afterLines us) :=
  hl.mono (h.step.lines hl.rel) (List.dropWhile_suffix _) (List.dropWhile_suffix _)

omit [Scalar α] in
private theorem wrapperEnd_together (h : Abreast A B R S E) (hl : Level A B R ts us) (hs : S s s')
    (hscope : s.scope = []) (type : DiagramType) :
    Together E (fun doc _ doc' _ => Documents S doc doc')
      (Reader.wrapperEnd A.input type (facing A.body ts s))
      (Reader.wrapperEnd B.input type (facing B.body us s')) := by
  rw [Reader.wrapperEnd, Reader.wrapperEnd]
  refine (Reader.expect_together h (by rfl) hl _ s s').bind fun _ _ _ _ _ htook => ?_
  cases htook with
  | @mk _ ts₁ _ us₁ _ _ _ hl₁ =>
    have hl₂ := h.lines hl₁
    rw [Reader.bind_of_ok (Reader.skipNewlines_facing A.holds hl₁.left _),
      Reader.bind_of_ok (Reader.skipNewlines_facing B.holds hl₁.right _),
      Reader.bind_of_ok (Reader.current_facing A.holds hl₂.left s),
      Reader.bind_of_ok (Reader.current_facing B.holds hl₂.right s'), h.headD_kind hl₂.rel]
    by_cases hk : ((afterLines ts₁).headD A.last).kind = .endOfInput
    · simp only [hk, bne_self_eq_false, Bool.false_eq_true, if_false]
      exact .ok ⟨type, s, s', hs, hscope, rfl, rfl⟩
    · simp only [bne_iff_ne.mpr hk, if_true]
      exact .error (h.missing _ hl₂.rel)

private theorem wrapped_together (h : Abreast A B R S E) (hl : Level A B R ts us)
    (hs : S ({} : State α) {}) {type : DiagramType} (ht : wrapperType? ts = some type) :
    Together E (fun doc _ doc' _ => Documents S doc doc')
      (Reader.wrappedPart A.input type (facing A.body ts {}))
      (Reader.wrappedPart B.input type (facing B.body us {})) := by
  rw [Reader.wrappedPart_eq, Reader.wrappedPart_eq]
  cases ts with
  | nil => cases ht
  | cons o ts =>
    cases ts with
    | nil => cases ht
    | cons n ts =>
      have hkinds : o.kind = .leftBracket ∧ n.kind = .identifier := by
        rw [wrapperType?] at ht
        split at ht
        · rename_i hk
          simpa using hk
        · cases ht
      obtain ⟨o', us, rfl, -⟩ := h.step.cons_left hl.rel
      obtain ⟨-, hr₁⟩ := h.step.tail hl.rel (by rw [hkinds.1]; decide)
      have hl₁ := hl.mono hr₁ (List.suffix_cons _ _) (List.suffix_cons _ _)
      obtain ⟨n', us, rfl, -⟩ := h.step.cons_left hr₁
      obtain ⟨-, hr₂⟩ := h.step.tail hr₁ (by rw [hkinds.2]; decide)
      have hl₂ := hl₁.mono hr₂ (List.suffix_cons _ _) (List.suffix_cons _ _)
      rw [Reader.bind_of_ok (Reader.advance_facing A.holds hl.left _),
        Reader.bind_of_ok (Reader.advance_facing B.holds hl.right _),
        Reader.bind_of_ok (Reader.advance_facing A.holds hl₁.left _),
        Reader.bind_of_ok (Reader.advance_facing B.holds hl₁.right _)]
      refine (Reader.expect_together h (by rfl) hl₂ _ _ _).bind fun _ _ _ _ _ htook => ?_
      cases htook with
      | @mk _ ts₃ _ us₃ _ _ _ hl₃ =>
        rw [Reader.bind_of_ok (Reader.skipNewlines_facing A.holds hl₃.left _),
          Reader.bind_of_ok (Reader.skipNewlines_facing B.holds hl₃.right _)]
        refine (Reader.expect_together h (by rfl) (h.lines hl₃) _ _ _).bind
          fun _ _ _ _ _ htook => ?_
        generalize afterLines ts₃ = ts₄ at htook
        generalize afterLines us₃ = us₄ at htook
        cases htook with
        | @mk _ ts₅ _ us₅ _ _ _ hl₅ =>
          refine (block_together h ⟨h.step.lines hl₅.rel, hl₅.left, hl₅.right⟩ hs).bind
            fun _ _ _ _ hblock hleft => ?_
          obtain ⟨ts₆, us₆, s, s', hts, hus, hr, hs, rfl, rfl⟩ := hleft
          have hscope := scope_of_block A hl₅.left hblock
          exact wrapperEnd_together h (hl₅.mono hr hts hus) hs hscope type

/-- What is read in step makes documents of related states, or fails in related ways. -/
theorem document_together (h : Abreast A B R S E) (hr : R (afterLines A.body) (afterLines B.body))
    (hs : S ({} : State α) {}) : Together E (fun doc _ doc' _ => Documents S doc doc')
      (Reader.document A.input {}) (Reader.document B.input {}) := by
  have hl : Level A B R (afterLines A.body) (afterLines B.body) :=
    ⟨hr, List.dropWhile_suffix _, List.dropWhile_suffix _⟩
  have hskip (A : Tape) : Reader.skipNewlines A.input ({} : State α) =
      .ok () (facing A.body (afterLines A.body) {}) := by
    have hfacing := Reader.skipNewlines_facing A.holds (List.suffix_refl A.body) ({} : State α)
    rwa [show facing A.body A.body ({} : State α) = {} by simp [facing]] at hfacing
  rw [Reader.document, Reader.bind_of_ok (hskip A),
    Reader.bind_of_ok (wrapper?_facing A.holds hl.left _), Reader.document,
    Reader.bind_of_ok (hskip B), Reader.bind_of_ok (wrapper?_facing B.holds hl.right _),
    ← h.step.similarity.wrapperType? hr]
  cases ht : wrapperType? (afterLines A.body) with
  | none => exact plain_together h hl hs
  | some type => exact wrapped_together h hl hs ht

end ComponentDiagram.Grammar
