import ComponentDiagram.Proofs.Grammar.Similar

/-! Where tokens stand is told by diagnostics and errors, and by nothing else that is read. -/
namespace ComponentDiagram

/-- A diagnostic about another place. -/
def Diagnostic.moved (f : Position → Position) (d : Diagnostic) : Diagnostic :=
  { d with line := (f ⟨d.line, d.column⟩).line, column := (f ⟨d.line, d.column⟩).column }

/-- A diagnostic about nowhere in particular. -/
def Diagnostic.unplaced (d : Diagnostic) : Diagnostic := { d with line := 1, column := 1 }

namespace Grammar

/-- Tokens of the same kinds and texts. -/
def Alike (ts us : List Token) : Prop := ts.map Token.unplaced = us.map Token.unplaced

theorem Alike.symm {ts us : List Token} (h : Alike ts us) : Alike us ts := Eq.symm h

theorem alike_unplaced (ts : List Token) : Alike ts (ts.map Token.unplaced) := by
  rw [Alike, List.map_map]
  rfl

theorem Alike.cons_left {t : Token} {ts us : List Token} (h : Alike (t :: ts) us) :
    ∃ u us', us = u :: us' ∧ u.kind = t.kind ∧ u.text = t.text ∧ Alike ts us' := by
  obtain ⟨u, us', rfl, hu, hus⟩ := List.map_eq_cons_iff.mp (Eq.symm h)
  have hk := congrArg Token.kind hu
  have ht := congrArg Token.text hu
  exact ⟨u, us', rfl, hk, ht, hus.symm⟩

theorem Alike.nil_left {us : List Token} (h : Alike [] us) : us = [] :=
  List.map_eq_nil_iff.mp (Eq.symm h)

private theorem takeWhile_unplaced (p : Token → Bool) (hp : ∀ t, p t.unplaced = p t)
    (ts : List Token) : (ts.map Token.unplaced).takeWhile p =
      (ts.takeWhile p).map Token.unplaced := by
  rw [List.takeWhile_map]
  congr 2
  funext t
  exact hp t

private theorem dropWhile_unplaced (p : Token → Bool) (hp : ∀ t, p t.unplaced = p t)
    (ts : List Token) : (ts.map Token.unplaced).dropWhile p =
      (ts.dropWhile p).map Token.unplaced := by
  rw [List.dropWhile_map]
  congr 2
  funext t
  exact hp t

theorem Alike.takeWhile {ts us : List Token} (h : Alike ts us) (p : Token → Bool)
    (hp : ∀ t, p t.unplaced = p t) : Alike (ts.takeWhile p) (us.takeWhile p) := by
  rw [Alike, ← takeWhile_unplaced p hp, ← takeWhile_unplaced p hp, h]

theorem Alike.dropWhile {ts us : List Token} (h : Alike ts us) (p : Token → Bool)
    (hp : ∀ t, p t.unplaced = p t) : Alike (ts.dropWhile p) (us.dropWhile p) := by
  rw [Alike, ← dropWhile_unplaced p hp, ← dropWhile_unplaced p hp, h]

theorem Alike.joined {ts us : List Token} (h : Alike ts us) :
    Reader.joined ts = Reader.joined us := by
  have htexts := congrArg (List.map Token.text) h
  rw [List.map_map, List.map_map] at htexts
  rw [Reader.joined, Reader.joined, show ts.map (·.text) = us.map (·.text) from htexts]

theorem Alike.afterLines {ts us : List Token} (h : Alike ts us) :
    Alike (afterLines ts) (afterLines us) :=
  h.dropWhile _ fun _ => rfl

theorem similarity_alike : Similarity Alike where
  forth h _ := h.cons_left
  back h _ := by
    obtain ⟨t, ts', rfl, hk, ht, h'⟩ := h.symm.cons_left
    exact ⟨t, ts', rfl, hk, ht, h'.symm⟩
  run hp h := by
    have hkind (t : Token) := hp.kind t.unplaced t rfl
    exact ⟨(h.takeWhile _ hkind).joined, h.dropWhile _ hkind⟩

theorem Alike.wrapperType? {ts us : List Token} (h : Alike ts us) :
    wrapperType? ts = wrapperType? us :=
  similarity_alike.wrapperType? h

variable {α : Type}

/-- A state whose diagnostics are about nowhere in particular. -/
def State.unplaced (s : State α) : State α :=
  { s with diagnostics := s.diagnostics.map Diagnostic.unplaced }

section

variable [Scalar α]

/-- The clause at the front of some tokens stands at the front of all alike. -/
theorem Reads.alike {ts us rest : List Token} {c : Clause α} (h : Reads ts c rest)
    (he : Alike ts us) :
    ∃ c' rest', Reads us c' rest' ∧ c'.unplaced = c.unplaced ∧ Alike rest rest' := by
  cases hs : c.isStatement with
  | true => exact similarity_alike.reads h hs he
  | false =>
    cases h with
    | newline hk =>
      obtain ⟨u, us, rfl, hu, -, he⟩ := he.cons_left
      exact ⟨.newline, us, .newline (hu.trans hk), rfl, he⟩
    | skipped hk =>
      obtain ⟨u, us, rfl, hu, ht, he⟩ := he.cons_left
      exact ⟨_, _, .skipped (hu ▸ hk), congrArg Clause.skipped (unplaced_eq hu ht),
        he.dropWhile inLine fun _ => rfl⟩
    | _ => cases hs

theorem ReadsAll.alike {ts us rest : List Token} {cs : List (Clause α)} (h : ReadsAll ts cs rest)
    (he : Alike ts us) : ∃ cs' rest', ReadsAll us cs' rest' ∧
      cs'.map Clause.unplaced = cs.map Clause.unplaced ∧ Alike rest rest' := by
  induction h generalizing us with
  | nil => exact ⟨[], us, .nil, rfl, he⟩
  | cons hr _ ih =>
    obtain ⟨c', us', hr', hc, he'⟩ := hr.alike he
    obtain ⟨cs', rest', hrs, hcs, hrest⟩ := ih he'
    exact ⟨c' :: cs', rest', .cons hr' hrs, by rw [List.map_cons, List.map_cons, hc, hcs], hrest⟩

end

/-! ## What clauses do -/

/-- A clause whose tokens stand elsewhere. -/
def Clause.moved (f : Position → Position) : Clause α → Clause α
  | .skipped t => .skipped (t.moved f)
  | .component opening id label place opens => .component (opening.moved f) id label place opens
  | .port opening id target side label => .port (opening.moved f) id target side label
  | c => c

/-- A state whose diagnostics are about other places. -/
def State.moved (f : Position → Position) (s : State α) : State α :=
  { s with diagnostics := s.diagnostics.map (Diagnostic.moved f) }

variable (f : Position → Position)

private theorem moved_warned (s : State α) (m : String) (t : Token) :
    (s.warned m t).moved f = (s.moved f).warned m (t.moved f) := by
  simp [State.moved, State.warned, Diagnostic.moved, Token.moved]

private theorem moved_attach (s : State α) (t : ComponentTree α) :
    (s.attach t).moved f = (s.moved f).attach t := by
  obtain ⟨_, scope, _, _, _⟩ := s
  cases scope <;> rfl

private theorem moved_close (s : State α) : s.close.moved f = (s.moved f).close := by
  obtain ⟨index, scope, roots, connectors, diagnostics⟩ := s
  cases scope with
  | nil => rfl
  | cons frame outer =>
    simp only [State.close, State.moved]
    split
    · exact moved_attach f ⟨index, outer, roots, connectors, diagnostics⟩ _
    · rfl

private theorem moved_addPort? (s : State α) (id : String) (port : Port α) :
    (s.addPort? id port).map (State.moved f) = (s.moved f).addPort? id port := by
  unfold State.addPort?
  split
  · rfl
  · simp only [State.moved]
    split
    · rfl
    · split
      · rfl
      · rw [Option.map_map]
        rfl

/-- A clause does the same wherever its tokens stand, and its diagnostics move with them. -/
theorem act_moved (limit : Option Nat) (c : Clause α) (s : State α) :
    (c.act limit s).map (State.moved f) = (c.moved f).act limit (s.moved f) := by
  cases c with
  | newline => rfl
  | edge => rfl
  | skipped t => exact congrArg some (moved_warned f s _ t)
  | closing =>
    simp only [Clause.act, Clause.moved]
    split
    · rename_i h
      rw [if_pos (by exact h)]
      rfl
    · rename_i h
      rw [if_neg (by exact h), Option.map_some, moved_close]
  | component opening id label place opens =>
    simp only [Clause.act, Clause.moved, Option.map_some, Option.some.injEq]
    have hdepth : (s.moved f).scope.length = s.scope.length := rfl
    rw [hdepth]
    split <;> split
    · rfl
    · exact congrArg (State.enter · _ _) (moved_warned ..)
    · exact moved_attach ..
    · exact moved_warned ..
  | port opening id target side label =>
    cases target with
    | inside connector =>
      simp only [Clause.act, Clause.moved]
      split
      · rename_i h
        rw [if_pos (by exact h)]
        rfl
      · rename_i h
        rw [if_neg (by exact h), Option.map_some]
        obtain ⟨_, scope, _, _, _⟩ := s
        cases scope <;> rfl
    | on node =>
      simp only [Clause.act, Clause.moved, Option.map_some, ← moved_addPort?]
      cases s.addPort? node { id, side, label } with
      | none => exact congrArg some (moved_warned ..)
      | some s' => rfl

theorem actAll_moved (limit : Option Nat) (cs : List (Clause α)) (s : State α) :
    (actAll limit cs s).map (State.moved f) =
      actAll limit (cs.map (Clause.moved f)) (s.moved f) := by
  induction cs generalizing s with
  | nil => rfl
  | cons c cs ih =>
    rw [List.map_cons, actAll_cons, actAll_cons, ← act_moved]
    cases c.act limit s with
    | none => rfl
    | some s' => exact ih s'

theorem Clause.unplaced_eq (c : Clause α) : c.unplaced = c.moved fun _ => {} := by
  cases c <;> rfl

/-- A clause says the same wherever its tokens stand. -/
theorem act_unplaced (limit : Option Nat) (c : Clause α) (s : State α) :
    (c.act limit s).map State.unplaced = c.unplaced.act limit s.unplaced := by
  rw [c.unplaced_eq]
  exact act_moved (fun _ => {}) limit c s

theorem actAll_unplaced (limit : Option Nat) (cs : List (Clause α)) (s : State α) :
    (actAll limit cs s).map State.unplaced =
      actAll limit (cs.map Clause.unplaced) s.unplaced := by
  rw [funext Clause.unplaced_eq]
  exact actAll_moved (fun _ => {}) limit cs s

end Grammar
end ComponentDiagram
