import ComponentDiagram.Proofs.Grammar.Similar

/-! Two readers side by side. What they still have to read is related, and as long as it is, both
take the same tokens or fail in related ways. -/
namespace ComponentDiagram.Grammar

/-- Tokens that can be taken from two lists in step: one by one, and line ends together, of which
either list may have more. -/
structure InStep (R : List Token → List Token → Prop) : Prop where
  head : ∀ {ts us}, R ts us → ts.head?.map Token.kind = us.head?.map Token.kind
  tail : ∀ {t ts u us}, R (t :: ts) (u :: us) → t.kind ≠ .newline → u.text = t.text ∧ R ts us
  lines : ∀ {ts us}, R ts us → R (afterLines ts) (afterLines us)

namespace InStep

variable {R : List Token → List Token → Prop} {t u : Token} {ts us : List Token}

theorem nil_left (h : InStep R) (hr : R [] us) : us = [] := by
  have hhead := h.head hr
  cases us with
  | nil => rfl
  | cons u us => cases hhead

theorem cons_left (h : InStep R) (hr : R (t :: ts) us) :
    ∃ u us', us = u :: us' ∧ u.kind = t.kind := by
  have hhead := h.head hr
  cases us with
  | nil => cases hhead
  | cons u us => exact ⟨u, us, rfl, (Option.some.inj hhead).symm⟩

theorem headKind (h : InStep R) (hr : R ts us) : headKind ts = headKind us := by
  cases ts with
  | nil => rw [h.nil_left hr]
  | cons t ts =>
    obtain ⟨u, us, rfl, hu⟩ := h.cons_left hr
    exact hu.symm

theorem flip (h : InStep R) : InStep fun ts us => R us ts where
  head hr := (h.head hr).symm
  tail hr hn := by
    have hk : _ = _ := Option.some.inj (h.head hr)
    obtain ⟨htext, hrest⟩ := h.tail hr (hk ▸ hn)
    exact ⟨htext.symm, hrest⟩
  lines hr := h.lines hr

/-- What a label gathers is taken in step. -/
theorem run (h : InStep R) {p : Token → Bool} (hp : IsRun p) (hr : R ts us) :
    (ts.takeWhile p).map Token.text = (us.takeWhile p).map Token.text ∧
      R (ts.dropWhile p) (us.dropWhile p) := by
  induction ts generalizing us with
  | nil =>
    obtain rfl := h.nil_left hr
    exact ⟨rfl, hr⟩
  | cons t ts ih =>
    obtain ⟨u, us, rfl, hu⟩ := h.cons_left hr
    have hpu := hp.kind u t hu
    cases hpt : p t with
    | false =>
      rw [List.takeWhile_cons_of_neg (by simp [hpt]), List.dropWhile_cons_of_neg (by simp [hpt]),
        List.takeWhile_cons_of_neg (by simp [hpu, hpt]),
        List.dropWhile_cons_of_neg (by simp [hpu, hpt])]
      exact ⟨rfl, hr⟩
    | true =>
      have hn : t.kind ≠ .newline := fun hk => by simp [hp.newline t hk] at hpt
      obtain ⟨htext, hrest⟩ := h.tail hr hn
      obtain ⟨hjoined, hdrop⟩ := ih hrest
      rw [List.takeWhile_cons_of_pos hpt, List.dropWhile_cons_of_pos hpt,
        List.takeWhile_cons_of_pos (hpu.trans hpt), List.dropWhile_cons_of_pos (hpu.trans hpt),
        List.map_cons, List.map_cons, htext, hjoined]
      exact ⟨rfl, hdrop⟩

private theorem forth (h : InStep R) (hr : R (t :: ts) us) (hk : isFixed t.kind = true) :
    ∃ u us', us = u :: us' ∧ u.kind = t.kind ∧ u.text = t.text ∧ R ts us' := by
  obtain ⟨u, us, rfl, hu⟩ := h.cons_left hr
  have hn : t.kind ≠ .newline := fun he => by simp [he, isFixed] at hk
  obtain ⟨htext, hrest⟩ := h.tail hr hn
  exact ⟨u, us, rfl, hu, htext, hrest⟩

theorem similarity (h : InStep R) : Similarity R where
  forth := h.forth
  back hr hk := h.flip.forth hr hk
  run hp hr := by
    obtain ⟨htexts, hrest⟩ := h.run hp hr
    exact ⟨by rw [Reader.joined, Reader.joined, htexts], hrest⟩

end InStep

/-! ## Two results -/

variable {α β γ : Type} {E : Failure → Failure → Prop}

/-- Two readers succeed with related results, or both fail in related ways. -/
inductive Together (E : Failure → Failure → Prop) (P : β → State α → β → State α → Prop) :
    EStateM.Result Failure (State α) β → EStateM.Result Failure (State α) β → Prop
  | ok {b s b' s'} : P b s b' s' → Together E P (.ok b s) (.ok b' s')
  | error {e s e' s'} : E e e' → Together E P (.error e s) (.error e' s')

theorem Together.bind {P : β → State α → β → State α → Prop} {Q : γ → State α → γ → State α → Prop}
    {x x' : Reader α β} {f f' : β → Reader α γ} {s s' : State α} (hx : Together E P (x s) (x' s'))
    (hf : ∀ b t b' t', x s = .ok b t → P b t b' t' → Together E Q (f b t) (f' b' t')) :
    Together E Q ((x >>= f) s) ((x' >>= f') s') := by
  change Together E Q (EStateM.bind x f s) (EStateM.bind x' f' s')
  rw [EStateM.bind, EStateM.bind]
  generalize hr : x s = r at hx
  generalize x' s' = r' at hx
  cases hx with
  | ok hp => exact hf _ _ _ _ hr hp
  | error he => exact .error he

theorem Together.mono {P Q : β → State α → β → State α → Prop}
    {r r' : EStateM.Result Failure (State α) β} (h : Together E P r r')
    (hpq : ∀ b s b' s', P b s b' s' → Q b s b' s') : Together E Q r r' := by
  cases h with
  | ok hp => exact .ok (hpq _ _ _ _ hp)
  | error he => exact .error he

theorem Together.of_eq {P : β → State α → β → State α → Prop}
    {r r' t t' : EStateM.Result Failure (State α) β} (h : Together E P t t') (hr : r = t)
    (hr' : r' = t') : Together E P r r' := by
  rw [hr, hr']
  exact h

/-! ## Two readers -/

/-- An input with its tokens in front of the end and the end. -/
structure Tape where
  input : Input
  body : List Token
  last : Token
  holds : input.Holds body last

namespace Tape

/-- Related ends of the tokens of two tapes. -/
structure Level (A B : Tape) (R : List Token → List Token → Prop) (ts us : List Token) : Prop where
  rel : R ts us
  left : ts <:+ A.body
  right : us <:+ B.body

/-- Two readers stand further on than two ends, in related states. -/
def Further (A B : Tape) (R : List Token → List Token → Prop) (S : State α → State α → Prop)
    (ts us : List Token) (s s' : State α) : Prop :=
  ∃ ts₁ us₁ s₁ s₁', ts₁ <:+ ts ∧ us₁ <:+ us ∧ R ts₁ us₁ ∧ S s₁ s₁' ∧
    s = facing A.body ts₁ s₁ ∧ s' = facing B.body us₁ s₁'

variable {A B : Tape} {R : List Token → List Token → Prop} {S : State α → State α → Prop}
  {ts us ts' us' : List Token} {s s' : State α}

theorem Further.mono (h : Further A B R S ts' us' s s') (ht : ts' <:+ ts) (hu : us' <:+ us) :
    Further A B R S ts us s s' := by
  obtain ⟨ts₁, us₁, s₁, s₁', hts, hus, hr, hs, he, he'⟩ := h
  exact ⟨ts₁, us₁, s₁, s₁', hts.trans ht, hus.trans hu, hr, hs, he, he'⟩

theorem Level.mono (h : Level A B R ts us) (hr : R ts' us') (ht : ts' <:+ ts) (hu : us' <:+ us) :
    Level A B R ts' us' :=
  ⟨hr, ht.trans h.left, hu.trans h.right⟩

theorem Level.further (h : R ts us) (hs : S s s') :
    Further A B R S ts us (facing A.body ts s) (facing B.body us s') :=
  ⟨ts, us, s, s', List.suffix_rfl, List.suffix_rfl, h, hs, rfl, rfl⟩

end Tape

open Tape

/-- Related ends of two tapes are read in step: related states stay related under clauses that
differ in where their tokens stand only, and errors at the next tokens are related. -/
structure Abreast (A B : Tape) (R : List Token → List Token → Prop) (S : State α → State α → Prop)
    (E : Failure → Failure → Prop) : Prop where
  step : InStep R
  missing : ∀ {ts us} (message : String), R ts us → E
    (.syntaxError (A.input.errorAt message (ts.headD A.last)))
    (.syntaxError (B.input.errorAt message (us.headD B.last)))
  same : ∀ e, E e e
  depth : ∀ {s s'}, S s s' → s.scope.length = s'.scope.length
  act : ∀ {s s'} (c c' : Clause α), S s s' → c'.unplaced = c.unplaced →
    Option.Rel S (c.act A.input.depthLimit s) (c'.act B.input.depthLimit s')

/-- Two readers take a token of one kind and with one text. -/
inductive Took (A B : Tape) (R : List Token → List Token → Prop) (wanted : TokenKind)
    (s s' : State α) : List Token → List Token → Token → State α → Token → State α → Prop
  | mk {t ts u us} : t.kind = wanted → u.kind = wanted → u.text = t.text → Level A B R ts us →
      Took A B R wanted s s' (t :: ts) (u :: us) t (facing A.body ts s) u (facing B.body us s')

namespace Abreast

variable {A B : Tape} {R : List Token → List Token → Prop} {S : State α → State α → Prop}
  {ts us : List Token} {s s' : State α}

theorem act_some (h : Abreast A B R S E) (hs : S s s') (c c' : Clause α)
    (hc : c'.unplaced = c.unplaced) {t t' : State α} (ha : c.act A.input.depthLimit s = some t)
    (ha' : c'.act B.input.depthLimit s' = some t') : S t t' := by
  have hact := h.act c c' hs hc
  rw [ha, ha'] at hact
  cases hact with
  | some hst => exact hst

theorem isEmpty (h : Abreast A B R S E) (hs : S s s') : s'.scope.isEmpty = s.scope.isEmpty := by
  rw [Bool.eq_iff_iff, List.isEmpty_iff_length_eq_zero, List.isEmpty_iff_length_eq_zero, h.depth hs]

theorem close (h : Abreast A B R S E) (hs : S s s') : S s.close s'.close := by
  have hempty := h.isEmpty hs
  cases he : s.scope.isEmpty with
  | true =>
    rw [he] at hempty
    have hstill {s : State α} (h : s.scope.isEmpty = true) : s.close = s := by
      rw [State.close, List.isEmpty_iff.mp h]
    rw [hstill he, hstill hempty]
    exact hs
  | false =>
    rw [he] at hempty
    refine h.act_some hs .closing .closing rfl ?_ ?_
    · rw [Clause.act, he]
      rfl
    · rw [Clause.act, hempty]
      rfl

/-- The token at the front, or the end, has one kind for both. -/
theorem headD_kind (h : Abreast A B R S E) (hr : R ts us) :
    (us.headD B.last).kind = (ts.headD A.last).kind := by
  cases ts with
  | nil => rw [h.step.nil_left hr, List.headD_nil, List.headD_nil, A.holds.last, B.holds.last]
  | cons t ts =>
    obtain ⟨u, us, rfl, hu⟩ := h.step.cons_left hr
    exact hu

end Abreast

namespace Reader

variable {A B : Tape} {R : List Token → List Token → Prop} {S : State α → State α → Prop}
  (h : Abreast A B R S E) {ts us : List Token}

include h

omit h in
theorem isFixed_ne {k : TokenKind} (hk : isFixed k = true) : k ≠ .endOfInput ∧ k ≠ .newline := by
  constructor <;> rintro rfl <;> cases hk

theorem expect_together {wanted : TokenKind} (hw : isFixed wanted = true) (hl : Level A B R ts us)
    (m : String) (s s' : State α) : Together E (Took A B R wanted s s' ts us)
      (expect A.input wanted m (facing A.body ts s))
      (expect B.input wanted m (facing B.body us s')) := by
  obtain ⟨hend, hline⟩ := isFixed_ne hw
  have hkind := h.headD_kind hl.rel
  rw [expect, bind_of_ok (current_facing A.holds hl.left s), expect,
    bind_of_ok (current_facing B.holds hl.right s'), hkind]
  by_cases hk : (ts.headD A.last).kind = wanted
  · simp only [hk, bne_self_eq_false, Bool.false_eq_true, if_false]
    cases ts with
    | nil => exact absurd (A.holds.last.symm.trans hk).symm hend
    | cons t ts =>
      obtain ⟨u, us, rfl, hu⟩ := h.step.cons_left hl.rel
      have ht : t.kind = wanted := hk
      obtain ⟨htext, hrest⟩ := h.step.tail hl.rel (ht ▸ hline)
      rw [advance_facing A.holds hl.left, advance_facing B.holds hl.right]
      exact .ok (.mk ht (hu.trans ht) htext
        (hl.mono hrest (List.suffix_cons t ts) (List.suffix_cons u us)))
  · simp only [bne_iff_ne.mpr hk, if_true]
    exact .error (h.missing m hl.rel)

omit h in
theorem expectKind_facing {A : Tape} {ts : List Token} (hs : ts <:+ A.body) (wanted : TokenKind)
    (s : State α) : expectKind A.input wanted (facing A.body ts s) =
      expect A.input wanted s!"Expected {wanted.describe}, got {(ts.headD A.last).kind.describe}"
        (facing A.body ts s) :=
  bind_of_ok (current_facing A.holds hs s)

theorem expectKind_together {wanted : TokenKind} (hw : isFixed wanted = true)
    (hl : Level A B R ts us) (s s' : State α) : Together E (Took A B R wanted s s' ts us)
      (expectKind A.input wanted (facing A.body ts s))
      (expectKind B.input wanted (facing B.body us s')) := by
  rw [expectKind_facing hl.left, expectKind_facing hl.right, h.headD_kind hl.rel]
  exact expect_together h hw hl _ s s'

/-- Two readers take an identifier in brackets. -/
theorem brackets_together {opening opening' : Reader α Token} {s s' : State α}
    (ho : Together E (Took A B R .leftBracket s s' ts us) (opening (facing A.body ts s))
      (opening' (facing B.body us s')))
    {m : String} {m₁ m₂ : Token → String} (hm : ∀ i j : Token, j.text = i.text → m₂ j = m₁ i)
    {f f' : Token → Token → Reader α β} {Q : β → State α → β → State α → Prop}
    (hf : ∀ {o i c rest o' i' c' rest'}, ts = o :: i :: c :: rest → us = o' :: i' :: c' :: rest' →
      Brackets o i c → o'.unplaced = o.unplaced → i'.text = i.text → Level A B R rest rest' →
      Together E Q (f o i (facing A.body rest s)) (f' o' i' (facing B.body rest' s'))) :
    Together E Q
      ((opening >>= fun o => expect A.input .identifier m >>= fun i =>
        expect A.input .rightBracket (m₁ i) >>= fun _ => f o i) (facing A.body ts s))
      ((opening' >>= fun o => expect B.input .identifier m >>= fun i =>
        expect B.input .rightBracket (m₂ i) >>= fun _ => f' o i) (facing B.body us s')) := by
  refine ho.bind fun o _ o' _ _ htook => ?_
  obtain ⟨hok, hok', hot, hl₁⟩ := htook
  refine (expect_together h (by rfl) hl₁ m s s').bind fun i _ i' _ _ htook => ?_
  obtain ⟨hik, -, hit, hl₂⟩ := htook
  rw [hm i i' hit]
  refine (expect_together h (by rfl) hl₂ _ s s').bind fun c _ c' _ _ htook => ?_
  obtain ⟨hck, -, -, hl₃⟩ := htook
  exact hf rfl rfl ⟨hok, hik, hck⟩ (unplaced_eq (hok'.trans hok.symm) hot) hit hl₃

end Reader

end ComponentDiagram.Grammar
