import ComponentDiagram.Proofs.Grammar.Abreast
import ComponentDiagram.Proofs.Grammar.Pruning
import ComponentDiagram.Proofs.Grammar.Sources

/-! The limit on depth. A reader with a limit makes what one without a limit makes, less the
components that lie too deep, and notes each of these once. -/
namespace ComponentDiagram.Grammar

variable {α : Type} {n : Nat}

/-! ## What is noted -/

/-- What is said of a component that is opened inside so many others. -/
def depthMessage (n : Nat) (id : String) : String :=
  s!"Node '{id}' exceeds maximum nesting depth of {n} " ++ "and was dropped"

def isDepthMessage (n : Nat) (message : String) : Bool :=
  (s!"' exceeds maximum nesting depth of {n} " ++ "and was dropped").toList.isSuffixOf
    message.toList

/-- What diagnostics say of components that are opened inside so many others. -/
def depthNotes (n : Nat) (ds : List Diagnostic) : List String :=
  (ds.map (·.message)).filter (isDepthMessage n)

theorem isDepthMessage_depthMessage (n : Nat) (id : String) :
    isDepthMessage n (depthMessage n id) = true := by
  rw [isDepthMessage, List.isSuffixOf_iff_suffix]
  refine ⟨("Node '" ++ id).toList, ?_⟩
  simp [depthMessage, toString]

/-- A message that ends in another letter speaks of something else. -/
theorem isDepthMessage_append {front rest : String} {letter : Char}
    (hrest : rest.toList.getLast? = some letter) (hne : letter ≠ 'd') :
    isDepthMessage n (front ++ rest) = false := by
  rw [← Bool.not_eq_true, isDepthMessage, List.isSuffixOf_iff_suffix]
  rintro ⟨before, hm⟩
  have hlast := congrArg List.getLast? hm
  rw [String.toList_append (s := front), List.getLast?_append (l := front.toList), hrest] at hlast
  simp [hne.symm] at hlast

theorem depthNotes_append (n : Nat) (ds es : List Diagnostic) :
    depthNotes n (ds ++ es) = depthNotes n ds ++ depthNotes n es := by
  rw [depthNotes, List.map_append, List.filter_append, depthNotes, depthNotes]

/-! ## Reading with a limit and without -/

/-- What is read with a limit, and what is read without one: as many components are open, and each
one that lies too deep is noted. The trees differ in these alone, unless an id stands for two
components. -/
structure Prunes (n : Nat) (s s' : State α) : Prop where
  depth : s.scope.length = s'.scope.length
  connectors : s.connectors = s'.connectors
  attached : ∀ frame ∈ s'.scope, frame.attached = true
  noted : depthNotes n s.diagnostics =
    (s'.levels.filter (n ≤ ·.1)).map fun p => depthMessage n p.2
  kept : s'.Distinct → s = s'.pruned n s.diagnostics

namespace Prunes

variable {s s' : State α}

theorem empty (n : Nat) : Prunes n ({} : State α) {} :=
  ⟨rfl, rfl, List.forall_mem_nil _, rfl, fun _ => rfl⟩

/-- What the reader without a limit notes does not matter. -/
theorem of_diagnostics (h : Prunes n s s') (ds : List Diagnostic) :
    Prunes n s { s' with diagnostics := ds } :=
  ⟨h.depth, h.connectors, h.attached, h.noted, h.kept⟩

private theorem kept_with (h : s = s'.pruned n s.diagnostics) (ds : List Diagnostic) :
    { s with diagnostics := ds } = s'.pruned n ds := by
  rw [h]
  rfl

private theorem depthNotes_warned {m : String} (hm : isDepthMessage n m = false) (t : Token) :
    depthNotes n (s.warned m t).diagnostics = depthNotes n s.diagnostics := by
  rw [State.warned, depthNotes_append]
  simp [depthNotes, hm]

/-- Other notes may be made. -/
theorem warned (h : Prunes n s s') {m : String} (hm : isDepthMessage n m = false) (t : Token) :
    Prunes n (s.warned m t) s' :=
  ⟨h.depth, h.connectors, h.attached, (depthNotes_warned hm t).trans h.noted,
    fun hd => kept_with (h.kept hd) _⟩

theorem connect (h : Prunes n s s') (name interface : Option String) (source : String)
    (kind : ConnectorKind) (target : String) (label : Option String) :
    Prunes n (s.connect name interface source kind target label)
      (s'.connect name interface source kind target label) where
  depth := h.depth
  connectors := by rw [State.connect, State.connect, h.connectors]
  attached := h.attached
  noted := h.noted
  kept hd := congrArg (State.connect · name interface source kind target label) (h.kept hd)

theorem close (h : Prunes n s s') : Prunes n s.close s'.close := by
  have hhead : ∀ frame ∈ s'.scope.head?, frame.attached = true := fun frame hf =>
    h.attached frame (List.mem_of_mem_head? hf)
  refine ⟨?_, ?_, ?_, ?_, fun hd => ?_⟩
  · rw [close_depth, close_depth, h.depth]
  · rw [close_connectors, close_connectors, h.connectors]
  · exact attached_close h.attached
  · rw [close_diagnostics, levels_close hhead, h.noted]
  · have hbefore : s'.Distinct := hd.of_levels ((levels_close hhead).trans (List.append_nil _).symm)
    rw [close_diagnostics, pruned_close hhead]
    exact congrArg State.close (h.kept hbefore)

theorem addInner (h : Prunes n s s') (port : Port α) :
    Prunes n (s.addInner port) (s'.addInner port) := by
  refine ⟨?_, ?_, ?_, ?_, fun hd => ?_⟩
  · rw [addInner_depth, addInner_depth, h.depth]
  · rw [addInner_connectors, addInner_connectors, h.connectors]
  · exact attached_addInner h.attached port
  · rw [addInner_diagnostics, levels_addInner, h.noted]
  · have hbefore : s'.Distinct := hd.of_levels ((levels_addInner ..).trans (List.append_nil _).symm)
    rw [addInner_diagnostics, pruned_addInner]
    exact congrArg (State.addInner · port) (h.kept hbefore)

private theorem addPort?_getD (h : Prunes n s s') (id : String) (port : Port α) :
    Prunes n ((s.addPort? id port).getD s) ((s'.addPort? id port).getD s') := by
  have hsame {β : Type} {g : State α → β}
      (hg : ∀ {s t : State α}, s.addPort? id port = some t → g t = g s) (s : State α) :
      g ((s.addPort? id port).getD s) = g s := by
    cases hp : s.addPort? id port with
    | none => rfl
    | some t => exact hg hp
  have hlevels := hsame (g := State.levels) levels_addPort? s'
  have hdiagnostics := hsame (g := State.diagnostics) addPort?_diagnostics s
  refine ⟨?_, ?_, ?_, ?_, fun hd => ?_⟩
  · rw [hsame (g := fun s => s.scope.length) addPort?_depth s, h.depth,
      hsame (g := fun s => s.scope.length) addPort?_depth s']
  · rw [hsame (g := State.connectors) addPort?_connectors s, h.connectors,
      hsame (g := State.connectors) addPort?_connectors s']
  · cases hp : s'.addPort? id port with
    | none => exact h.attached
    | some t => exact attached_addPort? h.attached hp
  · rw [hdiagnostics, hlevels, h.noted]
  · -- where the owner is too deep, the pruned state has none, and no port is missing from it
    have hbefore : s'.Distinct := hd.of_levels (hlevels.trans (List.append_nil _).symm)
    rw [hdiagnostics, pruned_addPort? hbefore h.attached]
    exact congrArg (fun s => (State.addPort? s id port).getD s) (h.kept hbefore)

/-- A port on a component is added in both readings, or it is too deep, or it is nowhere. -/
theorem addPort? (h : Prunes n s s') (id : String) (port : Port α) {m : String}
    (hm : isDepthMessage n m = false) (t t' : Token) :
    Prunes n ((s.addPort? id port).getD (s.warned m t))
      ((s'.addPort? id port).getD (s'.warned m t')) := by
  have hadded := h.addPort?_getD id port
  have hright : Prunes n ((s.addPort? id port).getD s)
      ((s'.addPort? id port).getD (s'.warned m t')) := by
    cases hp : s'.addPort? id port with
    | none =>
      rw [hp] at hadded
      exact hadded.of_diagnostics _
    | some => rwa [hp] at hadded
  cases hp : s.addPort? id port with
  | none =>
    rw [hp] at hright
    exact hright.warned hm t
  | some => rwa [hp] at hright

private theorem levels_noted {c : Component α} {ds : List Diagnostic} (h : Prunes n s s')
    (hds : depthNotes n ds = depthNotes n s.diagnostics ++
      if s.scope.length < n then [] else [depthMessage n c.id]) {t : State α}
    (ht : t.levels = s'.levels ++ [(s'.scope.length, c.id)]) :
    depthNotes n ds = (t.levels.filter (n ≤ ·.1)).map fun p => depthMessage n p.2 := by
  rw [hds, h.noted, ht, List.filter_append, List.map_append, h.depth]
  split
  · rename_i hlt
    rw [List.filter_cons_of_neg (by simpa using hlt), List.filter_nil, List.map_nil]
  · rename_i hge
    rw [List.filter_cons_of_pos (by simpa using hge), List.filter_nil, List.map_singleton]

variable {ds : List Diagnostic} {c : Component α}

/-- A component is opened in both readings, and noted if it is too deep. -/
theorem enter (h : Prunes n s s') (hds : depthNotes n ds = depthNotes n s.diagnostics ++
    if s.scope.length < n then [] else [depthMessage n c.id]) :
    Prunes n (({ s with diagnostics := ds } : State α).enter c (s.scope.length < n))
      (s'.enter c true) where
  depth := congrArg (· + 1) h.depth
  connectors := h.connectors
  attached := List.forall_mem_cons.mpr ⟨rfl, h.attached⟩
  noted := levels_noted h hds (levels_enter ..)
  kept hd := by
    have hkept := kept_with (h.kept (hd.of_levels (levels_enter ..))) ds
    rw [h.depth]
    exact congrArg (State.enter · c (s'.scope.length < n)) hkept

/-- A component without a block is added in both readings, or it is noted as too deep. -/
theorem attach (h : Prunes n s s') (hds : depthNotes n ds = depthNotes n s.diagnostics ++
    if s.scope.length < n then [] else [depthMessage n c.id]) :
    Prunes n (if s.scope.length < n then
        ({ s with diagnostics := ds } : State α).attach (.node c [])
      else { s with diagnostics := ds }) (s'.attach (.node c [])) := by
  have hnoted := levels_noted h hds (levels_attach s' c)
  have hkept (hd : (s'.attach (.node c [])).Distinct) :=
    kept_with (h.kept (hd.of_levels (levels_attach ..))) ds
  split
  · rename_i hlt
    refine ⟨?_, ?_, attached_attach h.attached _, ?_, fun hd => ?_⟩
    · rw [attach_depth, attach_depth]
      exact h.depth
    · rw [attach_connectors, attach_connectors]
      exact h.connectors
    · rw [attach_diagnostics]
      exact hnoted
    · rw [attach_diagnostics, pruned_attach, if_pos (h.depth ▸ hlt), hkept hd]
      rfl
  · rename_i hge
    refine ⟨?_, ?_, attached_attach h.attached _, hnoted, fun hd => ?_⟩
    · rw [attach_depth]
      exact h.depth
    · rw [attach_connectors]
      exact h.connectors
    · rw [pruned_attach, if_neg (h.depth ▸ hge), hkept hd]
      rfl

end Prunes

open Reader in
private theorem exists_noted (n : Nat) (opening : Token) (id : String) (s : State α) :
    ∃ ds, noted (some n) opening id s = { s with diagnostics := ds } ∧
      depthNotes n ds = depthNotes n s.diagnostics ++
        if s.scope.length < n then [] else [depthMessage n id] := by
  rw [noted, withinLimit]
  by_cases hlt : s.scope.length < n
  · rw [if_pos (decide_eq_true hlt), if_pos hlt]
    exact ⟨s.diagnostics, rfl, (List.append_nil _).symm⟩
  · rw [if_neg (by simpa using hlt), if_neg hlt]
    refine ⟨_, rfl, ?_⟩
    rw [depthNotes_append]
    have hnote := isDepthMessage_depthMessage n id
    exact congrArg (depthNotes n s.diagnostics ++ ·) (List.filter_cons_of_pos hnote)

/-- A clause does the same with a limit and without, but for what lies too deep. -/
theorem act_prunes {s s' : State α} (h : Prunes n s s') (c : Clause α) :
    Option.Rel (Prunes n) (c.act (some n) s) (c.act none s') := by
  have hempty : s.scope.isEmpty = s'.scope.isEmpty := by
    rw [Bool.eq_iff_iff, List.isEmpty_iff_length_eq_zero, List.isEmpty_iff_length_eq_zero, h.depth]
  cases c with
  | newline => exact .some h
  | closing =>
    rw [Clause.act, Clause.act, hempty]
    split
    · exact .none
    · exact .some h.close
  | skipped t =>
    have hrest : (toString ", skipping line").toList.getLast? = some 'e' := by decide
    exact .some ((h.of_diagnostics _).warned (isDepthMessage_append hrest (by decide)) t)
  | edge => exact .some (h.connect ..)
  | component opening id label place opens =>
    -- noted or not, it is opened in both readings, and counts for the depth of what is inside it
    obtain ⟨ds, hnoted, hds⟩ := exists_noted n opening id s
    have hact : Clause.act (some n) (.component opening id label place opens) s =
        some (if opens then
            (Reader.noted (some n) opening id s).enter (written id label place)
              (s.scope.length < n)
          else if s.scope.length < n then
            (Reader.noted (some n) opening id s).attach (.node (written id label place) [])
          else Reader.noted (some n) opening id s) := by
      simp only [Clause.act, Reader.noted, withinLimit, decide_eq_true_eq]
    rw [hact, hnoted, Clause.act]
    refine .some ?_
    cases opens with
    | true => exact h.enter hds
    | false => exact h.attach hds
  | port opening id target side label =>
    cases target with
    | inside connector =>
      rw [Clause.act, Clause.act, hempty]
      split
      · exact .none
      · exact .some (h.addInner _)
    | on node =>
      have hrest : (toString "'").toList.getLast? = some '\'' := by decide
      exact .some (h.addPort? node _ (isDepthMessage_append hrest (by decide)) opening opening)

/-- Where the diagnostics of the reader without a limit stand does not matter either. -/
private theorem Prunes.of_unplaced {s s' t : State α} (h : Prunes n s s')
    (ht : t.unplaced = s'.unplaced) : Prunes n s t := by
  obtain ⟨_, _, _, _, diagnostics⟩ := t
  obtain ⟨_, _, _, _, _⟩ := s'
  simp only [State.unplaced, State.mk.injEq] at ht
  obtain ⟨rfl, rfl, rfl, rfl, -⟩ := ht
  exact h.of_diagnostics diagnostics

private theorem act_prunes_alike {s s' : State α} (h : Prunes n s s') {c c' : Clause α}
    (hc : c'.unplaced = c.unplaced) :
    Option.Rel (Prunes n) (c.act (some n) s) (c'.act none s') := by
  have hact := act_prunes h c
  have hunplaced := act_unplaced none c' s'
  rw [hc, ← act_unplaced] at hunplaced
  cases ht : c.act none s' with
  | none =>
    rw [ht] at hact hunplaced
    rw [Option.map_eq_none_iff.mp hunplaced]
    exact hact
  | some t =>
    rw [ht] at hact hunplaced
    obtain ⟨t', ht', hplaced⟩ := Option.map_eq_some_iff.mp hunplaced
    rw [ht']
    generalize c.act (some n) s = o at hact
    cases hact with
    | some hst => exact .some (hst.of_unplaced hplaced)

/-- Tokens are taken in step with themselves. -/
theorem inStep_eq : InStep Eq where
  head h := congrArg (fun ts : List Token => ts.head?.map Token.kind) h
  tail h _ := by
    obtain ⟨rfl, rfl⟩ := List.cons.inj h
    exact ⟨rfl, rfl⟩
  lines h := congrArg afterLines h

/-- The tape as a reader with another limit has it. -/
def Tape.within (A : Tape) (limit : Option Nat) : Tape where
  input := { A.input with depthLimit := limit }
  body := A.body
  last := A.last
  holds := ⟨A.holds.tokens, A.holds.last, A.holds.body⟩

/-- A tape is read in step with itself, with a limit and without. -/
theorem abreast_prunes (A : Tape) (n : Nat) :
    Abreast (A.within (some n)) (A.within none) Eq (Prunes (α := α) n) Eq where
  step := inStep_eq
  missing _ h := by rw [h]; rfl
  same _ := rfl
  depth h := h.depth
  act _ _ h hc := act_prunes_alike h hc

/-- What a document has in common with the one that is read without a limit: the components at the
limit or deeper are noted once each in their order, and where ids are distinct, all others are left
as they are. -/
structure IsPruned (n : Nat) (doc full : Document α) : Prop where
  type : doc.type = full.type
  connectors : doc.connectors = full.connectors
  noted : depthNotes n doc.diagnostics = ((Tree.forestLeveled 0 full.roots).filter (n ≤ ·.1)).map
    fun p => depthMessage n p.2.id
  kept : (full.components.map (·.id)).Nodup → doc.roots = Tree.forestPrune n 0 full.roots

/-- States that leave nothing open make such documents. -/
theorem Prunes.documents {s s' : State α} (h : Prunes n s s') (hs : s.scope = [])
    (type : DiagramType) : IsPruned n (s.document type) (s'.document type) := by
  have hs' : s'.scope = [] := by
    rw [← List.length_eq_zero_iff, ← h.depth, hs, List.length_nil]
  have hroots {s : State α} (hs : s.scope = []) : (s.document type).roots = s.roots := by
    rw [State.document, State.forest, hs, openRoot, List.append_nil]
  refine ⟨rfl, h.connectors, ?_, fun hd => ?_⟩
  · have hlevels : s'.levels = (Tree.forestLeveled 0 s'.roots).map fun p => (p.1, p.2.id) := by
      rw [State.levels, State.leveled, hs', scopeLeveled, List.append_nil]
    rw [hroots hs', show (s.document type).diagnostics = s.diagnostics from rfl, h.noted, hlevels,
      List.filter_map, List.map_map]
    rfl
  · have hdistinct : s'.Distinct := by
      rw [State.Distinct, State.components, hs', List.reverse_nil, List.flatMap_nil,
        List.append_nil, ← hroots hs']
      exact hd
    rw [hroots hs, hroots hs']
    exact congrArg State.roots (h.kept hdistinct)

variable [Scalar α]

/-- The diagram of a text without the components that are opened inside so many others. -/
def parseWithin (limit : Option Nat) (text : String) (file : Option Path) :
    Except Failure (Document α) :=
  (readInput { Input.ofText text file with depthLimit := limit }).1

theorem parse_eq_within (text : String) (file : Option Path) :
    (parse text file : Except Failure (Document α)) = parseWithin (some 50) text file := rfl

/-- With a limit a text is read as without one: in the same way it fails, or its document is
pruned. -/
theorem parseWithin_prunes (n : Nat) (text : String) (file : Option Path) :
    (∃ e, (parseWithin (some n) text file : Except Failure (Document α)) = .error e ∧
      (parseWithin none text file : Except Failure (Document α)) = .error e) ∨
    ∃ doc full : Document α, parseWithin (some n) text file = .ok doc ∧
      parseWithin none text file = .ok full ∧ IsPruned n doc full := by
  obtain ⟨last, hin⟩ := ofText_holds text file
  have htogether := document_together
    (abreast_prunes (α := α) ⟨Input.ofText text file, _, last, hin⟩ n) rfl (.empty n)
  have hread (limit : Option Nat) : Tape.input (Tape.within ⟨Input.ofText text file, _, last, hin⟩
      limit) = { Input.ofText text file with depthLimit := limit } := rfl
  rw [hread, hread] at htogether
  rw [parseWithin, parseWithin, readInput, readInput]
  generalize Reader.document (α := α) { Input.ofText text file with depthLimit := some n } {} = r
    at htogether
  generalize Reader.document (α := α) { Input.ofText text file with depthLimit := none } {} = r'
    at htogether
  cases htogether with
  | error he => exact .inl ⟨_, rfl, congrArg Except.error he.symm⟩
  | ok hdocs =>
    obtain ⟨type, s, s', hs, hscope, rfl, rfl⟩ := hdocs
    exact .inr ⟨_, _, rfl, rfl, hs.documents hscope type⟩

/-- A text fails as it does without the limit; where it does not fail, its document is the one
without the limit, pruned at depth 50. -/
theorem parse_prunes (text : String) (file : Option Path) :
    (∀ e, (parse text file : Except Failure (Document α)) = .error e ↔
      (parseWithin none text file : Except Failure (Document α)) = .error e) ∧
    ∀ full : Document α, parseWithin none text file = .ok full →
      ∃ doc, parse text file = .ok doc ∧ IsPruned 50 doc full := by
  rw [parse_eq_within]
  rcases parseWithin_prunes (α := α) 50 text file with
    ⟨e, hlimited, hfull⟩ | ⟨doc, full, hlimited, hfull, hpruned⟩
  · rw [hlimited, hfull]
    exact ⟨fun _ => Iff.rfl, fun _ h => nomatch h⟩
  · rw [hlimited, hfull]
    refine ⟨fun e => iff_of_false nofun nofun, fun _ h => ?_⟩
    cases h
    exact ⟨doc, rfl, hpruned⟩

/-- Components inside one another. -/
def nested : List Char → List Char
  | [] => []
  | letter :: inner => ['[', letter, ']', '\x7b'] ++ nested inner ++ ['\x7d']

/-- More components inside one another than may be. -/
def nestedText : String :=
  String.ofList (nested "abcdefghijklmnopqrstuvwxyzABCDEFGHIJKLMNOPQRSTUVWXYZ".toList)

theorem parse_prunes_nested : ∃ full doc : Document Rat,
    parseWithin none nestedText none = .ok full ∧ (full.components.map (·.id)).Nodup ∧
    ((Tree.forestLeveled 0 full.roots).filter (50 ≤ ·.1)).map (·.2.id) = ["Y", "Z"] ∧
    parse nestedText none = .ok doc ∧ doc.roots = Tree.forestPrune 50 0 full.roots := by
  have hfull : ((parseWithin none nestedText none : Except Failure (Document Rat)).toOption.map
      fun full => (decide (full.components.map (·.id)).Nodup,
        ((Tree.forestLeveled 0 full.roots).filter (50 ≤ ·.1)).map (·.2.id))) =
      some (true, ["Y", "Z"]) := by
    rw [parseWithin, Input.ofText, Source.tokens, nestedText,
      String.toList_ofList]
    decide +kernel
  obtain ⟨full, hread, hpair⟩ := Option.map_eq_some_iff.mp hfull
  obtain ⟨hdistinct, hdeep⟩ := Prod.mk.inj hpair
  have hfull := ok_of_toOption hread
  obtain ⟨doc, hdoc, hpruned⟩ := (parse_prunes nestedText none).2 full hfull
  have hdistinct := of_decide_eq_true hdistinct
  exact ⟨full, doc, hfull, hdistinct, hdeep, hdoc, hpruned.kept hdistinct⟩

end ComponentDiagram.Grammar
