import ComponentDiagram.Proofs.Grammar.Clause

/-! What the steps of a reader do, told by the tokens that are left instead of an index. -/
namespace ComponentDiagram.Grammar

/-- The tokens of an input: those before the end, and the end itself. -/
structure Input.Holds (input : Input) (body : List Token) (last : Token) : Prop where
  tokens : input.tokens = (body ++ [last]).toArray
  last : last.kind = .endOfInput
  body : ∀ t ∈ body, t.kind ≠ .endOfInput

variable {α β γ : Type}

/-- The state with the given tokens left. -/
def facing (body ts : List Token) (s : State α) : State α :=
  { s with index := body.length - ts.length }

@[simp] theorem facing_scope (body ts : List Token) (s : State α) :
    (facing body ts s).scope = s.scope := rfl

@[simp] theorem facing_roots (body ts : List Token) (s : State α) :
    (facing body ts s).roots = s.roots := rfl

@[simp] theorem facing_connectors (body ts : List Token) (s : State α) :
    (facing body ts s).connectors = s.connectors := rfl

@[simp] theorem facing_diagnostics (body ts : List Token) (s : State α) :
    (facing body ts s).diagnostics = s.diagnostics := rfl

@[simp] theorem facing_facing (body ts us : List Token) (s : State α) :
    facing body ts (facing body us s) = facing body ts s := rfl

theorem enter_facing (body ts : List Token) (s : State α) (c : Component α) (attached : Bool) :
    (facing body ts s).enter c attached = facing body ts (s.enter c attached) := rfl

theorem attach_facing (body ts : List Token) (s : State α) (t : ComponentTree α) :
    (facing body ts s).attach t = facing body ts (s.attach t) := by
  simp only [State.attach, facing_scope]
  cases s.scope <;> rfl

theorem close_facing (body ts : List Token) (s : State α) :
    (facing body ts s).close = facing body ts s.close := by
  simp only [State.close, facing_scope]
  cases s.scope with
  | nil => rfl
  | cons frame outer =>
    simp only
    split
    · exact attach_facing body ts { s with scope := outer } (frame.tree [])
    · rfl

theorem suffix_of_cons {t : Token} {ts body : List Token} (h : t :: ts <:+ body) : ts <:+ body :=
  (List.suffix_cons t ts).trans h

section

variable {input : Input} {body : List Token} {last : Token} (hin : input.Holds body last)

include hin

theorem token_at {ts : List Token} (hs : ts <:+ body) (k : Nat) :
    input.token (body.length - ts.length + k) = (ts.drop k).headD last := by
  obtain ⟨front, rfl⟩ := hs
  have hi : (front ++ ts).length - ts.length + k = front.length + k := by simp
  rw [hi, Input.token, hin.tokens]
  simp only [List.getElem?_toArray, List.append_assoc]
  rw [List.getElem?_append_right (by omega), Nat.add_sub_cancel_left]
  rcases Nat.lt_trichotomy k ts.length with hk | rfl | hk
  · rw [List.getElem?_append_left hk, List.getElem?_eq_getElem hk, List.drop_eq_getElem_cons hk]
    rfl
  · simp
  · rw [List.getElem?_append_right (by omega), List.drop_eq_nil_of_le (by omega),
      List.getElem?_eq_none (by simp; omega)]
    simp

theorem token_facing {ts : List Token} (hs : ts <:+ body) :
    input.token (body.length - ts.length) = ts.headD last := by
  have h := token_at hin hs 0
  rwa [Nat.add_zero, List.drop_zero] at h

theorem kind_at {ts : List Token} (hs : ts <:+ body) (k : Nat) :
    (input.token (body.length - ts.length + k)).kind = headKind (ts.drop k) := by
  rw [token_at hin hs]
  cases ts.drop k with
  | nil => exact hin.last
  | cons t rest => rfl

theorem ne_endOfInput_of_suffix {t : Token} {ts : List Token} (hs : t :: ts <:+ body) :
    t.kind ≠ .endOfInput :=
  hin.body t (hs.subset (List.mem_cons_self ..))

theorem runTo_eq {passes : TokenKind → Bool} {ts : List Token} (hs : ts <:+ body) :
    input.runTo (fun kind => kind != .endOfInput && passes kind) (ts.length + 1)
      (body.length - ts.length) = ts.takeWhile fun t => passes t.kind := by
  induction ts with
  | nil =>
    rw [Input.runTo, token_facing hin hs]
    simp [hin.last]
  | cons t ts ih =>
    have hlen := hs.length_le
    have hnext : body.length - (t :: ts).length + 1 = body.length - ts.length := by
      simp only [List.length_cons] at hlen ⊢
      omega
    have hrest := ih (suffix_of_cons hs)
    rw [Input.runTo, token_facing hin hs, hnext]
    simp only [List.headD_cons, List.length_cons, hrest, List.takeWhile_cons]
    simp [ne_endOfInput_of_suffix hin hs]

theorem run_eq {passes : TokenKind → Bool} {ts : List Token} (hs : ts <:+ body) :
    input.run passes (body.length - ts.length) = ts.takeWhile fun t => passes t.kind := by
  have hlen := hs.length_le
  have hsize : input.tokens.size - (body.length - ts.length) = ts.length + 1 := by
    rw [hin.tokens]
    simp only [List.size_toArray, List.length_append, List.length_singleton]
    omega
  rw [Input.run, hsize, runTo_eq hin hs]

end

namespace Reader

theorem bind_ok {x : Reader α β} {f : β → Reader α γ} {s s' : State α} {c : γ} :
    (x >>= f) s = .ok c s' ↔ ∃ b s₁, x s = .ok b s₁ ∧ f b s₁ = .ok c s' := by
  change EStateM.bind x f s = _ ↔ _
  rw [EStateM.bind]
  cases h : x s with
  | ok b s₁ =>
    constructor
    · exact fun hf => ⟨b, s₁, rfl, hf⟩
    · rintro ⟨_, _, he, hf⟩
      cases he
      exact hf
  | error e s₁ => simp

theorem bind_of_ok {x : Reader α β} {f : β → Reader α γ} {s s₁ : State α} {b : β}
    (h : x s = .ok b s₁) : (x >>= f) s = f b s₁ := by
  change EStateM.bind x f s = _
  rw [EStateM.bind, h]

@[simp] theorem pure_run (b : β) (s : State α) : (pure b : Reader α β) s = .ok b s := rfl

@[simp] theorem get_run (s : State α) : (get : Reader α (State α)) s = .ok s s := rfl

@[simp] theorem set_run (t s : State α) : (set t : Reader α PUnit) s = .ok ⟨⟩ t := rfl

@[simp] theorem modify_run (f : State α → State α) (s : State α) :
    (modify f : Reader α PUnit) s = .ok ⟨⟩ (f s) := rfl

@[simp] theorem throw_run (e : Failure) (s : State α) :
    (throw e : Reader α β) s = .error e s := rfl

section

variable {input : Input} {body : List Token} {last : Token} (hin : input.Holds body last)

include hin

theorem current_facing {ts : List Token} (hs : ts <:+ body) (s : State α) :
    current input (facing body ts s) = .ok (ts.headD last) (facing body ts s) := by
  rw [current, bind_of_ok (get_run _)]
  simp only [facing, token_facing hin hs, pure_run]

theorem current_cons {t : Token} {ts : List Token} (hs : t :: ts <:+ body) (s : State α) :
    current input (facing body (t :: ts) s) = .ok t (facing body (t :: ts) s) :=
  current_facing hin hs s

theorem current_nil (s : State α) :
    current input (facing body [] s) = .ok last (facing body [] s) :=
  current_facing hin (List.nil_suffix) s

theorem kind_facing {ts : List Token} (hs : ts <:+ body) (s : State α) :
    kind input (facing body ts s) = .ok (headKind ts) (facing body ts s) := by
  rw [kind, bind_of_ok (current_facing hin hs s), pure_run]
  have h := kind_at hin hs 0
  rw [Nat.add_zero, List.drop_zero, token_facing hin hs] at h
  rw [h]

theorem advance_facing {t : Token} {ts : List Token} (hs : t :: ts <:+ body) (s : State α) :
    advance input (facing body (t :: ts) s) = .ok t (facing body ts s) := by
  have hlen := hs.length_le
  rw [advance, bind_of_ok (current_cons hin hs s),
    if_pos (bne_iff_ne.mpr (ne_endOfInput_of_suffix hin hs))]
  refine (bind_of_ok (modify_run _ _)).trans ?_
  simp only [pure_run, facing, List.length_cons] at hlen ⊢
  rw [show body.length - (ts.length + 1) + 1 = body.length - ts.length by omega]

/-- A token is taken exactly if it is the first one and of the wanted kind. -/
theorem expect_ok {wanted : TokenKind} (hw : wanted ≠ .endOfInput) {message : String}
    {ts : List Token} (hs : ts <:+ body) {s s' : State α} {t : Token} :
    expect input wanted message (facing body ts s) = .ok t s' ↔
      ∃ rest, ts = t :: rest ∧ t.kind = wanted ∧ s' = facing body rest s := by
  cases ts with
  | nil =>
    rw [expect, bind_of_ok (current_nil hin s), if_pos (by simp [hin.last, hw.symm])]
    simp [failAt]
  | cons t' rest =>
    rw [expect, bind_of_ok (current_cons hin hs s)]
    by_cases hk : t'.kind = wanted
    · rw [if_neg (by simp [hk]), advance_facing hin hs]
      constructor
      · intro h
        cases h
        exact ⟨rest, rfl, hk, rfl⟩
      · rintro ⟨_, he, -, rfl⟩
        cases he
        rfl
    · rw [if_pos (by simp [hk])]
      constructor
      · intro h
        simp [failAt] at h
      · rintro ⟨_, he, hk', -⟩
        cases he
        exact absurd hk' hk

theorem expectKind_ok {wanted : TokenKind} (hw : wanted ≠ .endOfInput)
    {ts : List Token} (hs : ts <:+ body) {s s' : State α} {t : Token} :
    expectKind input wanted (facing body ts s) = .ok t s' ↔
      ∃ rest, ts = t :: rest ∧ t.kind = wanted ∧ s' = facing body rest s := by
  rw [expectKind, bind_of_ok (current_facing hin hs s)]
  exact expect_ok hin hw hs

theorem takeRun_facing {passes : TokenKind → Bool} {ts : List Token} (hs : ts <:+ body)
    (s : State α) : takeRun input passes (facing body ts s) =
      .ok (ts.takeWhile fun t => passes t.kind)
        (facing body (ts.dropWhile fun t => passes t.kind) s) := by
  have hlen := hs.length_le
  have hsum := congrArg List.length
    (List.takeWhile_append_dropWhile (p := fun t : Token => passes t.kind) (l := ts))
  rw [List.length_append] at hsum
  rw [takeRun, bind_of_ok (get_run _), bind_of_ok (set_run _ _), pure_run]
  simp only [facing, run_eq hin hs]
  congr 2
  omega

theorem skipNewlines_facing {ts : List Token} (hs : ts <:+ body) (s : State α) :
    skipNewlines input (facing body ts s) =
      .ok () (facing body (afterLines ts) s) := by
  rw [skipNewlines, bind_of_ok (takeRun_facing hin hs s), pure_run, afterLines]

theorem collect_facing {stops : List TokenKind} {ts : List Token} (hs : ts <:+ body)
    (s : State α) : collect input stops (facing body ts s) =
      .ok (joined (ts.takeWhile fun t => !stops.contains t.kind))
        (facing body (ts.dropWhile fun t => !stops.contains t.kind) s) := by
  rw [collect, bind_of_ok (takeRun_facing hin hs s), pure_run]

theorem trailingLabel_facing {ts : List Token} (hs : ts <:+ body) (s : State α) :
    trailingLabel input (facing body ts s) =
      .ok (trailing ts).1 (facing body (trailing ts).2 s) := by
  rw [trailingLabel, bind_of_ok (kind_facing hin hs s)]
  cases ts with
  | nil => rfl
  | cons t ts =>
    by_cases hk : t.kind = .colon
    · simp only [headKind, trailing, hk, bne_self_eq_false, Bool.false_eq_true, if_false, if_true]
      rw [bind_of_ok (advance_facing hin hs s),
        bind_of_ok (collect_facing hin (suffix_of_cons hs) s), pure_run]
      rfl
    · simp [headKind, trailing, hk]

theorem skipLine_facing {t : Token} {ts : List Token} (hs : t :: ts <:+ body) (s : State α) :
    skipLine input (facing body (t :: ts) s) =
      .ok () (facing body (ts.dropWhile inLine)
        (s.warned s!"Unexpected {t.kind.describe} {Text.quoted t.text}, skipping line" t)) := by
  have hline : (fun t : Token => t.kind != .newline && t.kind != .rightBrace) = inLine := by
    funext t
    rw [inLine]
    cases t.kind <;> rfl
  rw [skipLine, bind_of_ok (current_cons hin hs s), warn, bind_of_ok (modify_run _ _)]
  exact (bind_of_ok (advance_facing hin hs (s.warned _ t))).trans
    ((bind_of_ok (takeRun_facing hin (suffix_of_cons hs) _)).trans (by rw [hline, pure_run]))

theorem atEdge_facing {ts : List Token} (hs : ts <:+ body) (s : State α) :
    atEdge input (facing body ts s) = .ok (startsEdge ts) (facing body ts s) := by
  have h0 := kind_at hin hs 0
  have h1 := kind_at hin hs 1
  have h2 := kind_at hin hs 2
  rw [atEdge, bind_of_ok (get_run _), pure_run]
  simp only [facing, h0, h1, h2]
  congr 1
  match ts with
  | [] => rfl
  | [a] => simp [startsEdge, headKind, TokenKind.isConnector]
  | a :: b :: rest => rfl

end

end Reader

end ComponentDiagram.Grammar
