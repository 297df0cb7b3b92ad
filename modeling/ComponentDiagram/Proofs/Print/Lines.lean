import ComponentDiagram.Proofs.Print.Lexemes

/-! The tokens of canonical source as a whole. -/
namespace ComponentDiagram.Print
open Source

def lineEnd : Token := token .newline "\n"

/-- The tokens of lines, each with its end. -/
def linesTokens (lines : List String) : List Token :=
  lines.flatMap fun line => cut line.toList ++ [lineEnd]

theorem linesTokens_append (ls ms : List String) :
    linesTokens (ls ++ ms) = linesTokens ls ++ linesTokens ms :=
  List.flatMap_append

theorem linesTokens_singleton (line : String) :
    linesTokens [line] = cut line.toList ++ [lineEnd] := by
  simp [linesTokens]

theorem cut_append_line (a b : List Char) : cut (a ++ '\n' :: b) = cut a ++ lineEnd :: cut b := by
  rw [cut_append a (apart_newline b), cut_newline]
  rfl

/-- Lines with an end after each are cut line by line. -/
theorem cut_lines {lines : List String} (h : lines ≠ []) :
    cut ("\n".intercalate lines ++ "\n").toList = linesTokens lines := by
  have hline : ("\n" : String).toList = ['\n'] := rfl
  rw [String.toList_append, hline, cut_append_line, cut_nil]
  induction lines with
  | nil => exact absurd rfl h
  | cons l ls ih =>
    cases ls with
    | nil => simp [linesTokens]
    | cons m ls =>
      rw [String.intercalate_cons_cons, String.toList_append, String.toList_append, hline,
        List.append_assoc, List.singleton_append, cut_append_line, List.append_assoc,
        List.cons_append, ih (by simp)]
      simp [linesTokens]

theorem cut_indent (depth : Nat) (cs : List Char) : cut ((indent depth).toList ++ cs) = cut cs := by
  rw [indent, String.toList_ofList]
  induction 4 * depth with
  | zero => rfl
  | succ n ih => rw [List.replicate_succ, List.cons_append, cut_space, ih]

theorem cut_indented (depth : Nat) (s : String) : cut (indent depth ++ s).toList = cut s.toList := by
  rw [String.toList_append, cut_indent]

variable {α : Type} [Scalar α]

/-- The tokens of the ports that are declared in their owner's block. -/
def portsTokens (c : Component α) : List Token :=
  c.ports.flatMap fun p => portTokens c.id p ++ [lineEnd]

mutual

def treeTokens : ComponentTree α → List Token
  | .node c children =>
    if children.isEmpty && c.ports.isEmpty then headTokens c ++ [lineEnd]
    else
      headTokens c ++ (token .leftBrace "\x7b" :: lineEnd ::
        (portsTokens c ++ (forestTokens children ++ [token .rightBrace "\x7d", lineEnd])))

def forestTokens : List (ComponentTree α) → List Token
  | [] => []
  | t :: ts => treeTokens t ++ forestTokens ts

end

/-- The tokens after the brace that opens a diagram. -/
def insideTokens (doc : Document α) : List Token :=
  lineEnd :: (forestTokens doc.roots ++
    ((if doc.roots.isEmpty || doc.connectors.isEmpty then [] else [lineEnd]) ++
      (doc.connectors.flatMap (fun c => connectorTokens c ++ [lineEnd]) ++
        [token .rightBrace "\x7d", lineEnd])))

def documentTokens (doc : Document α) : List Token :=
  bracketTokens doc.type.name ++ token .leftBrace "\x7b" :: insideTokens doc

private theorem portLines_tokens {c : Component α} (h : c.IsWellFormed IsWritable) (depth : Nat) :
    linesTokens (c.ports.map fun p => indent depth ++ portText c.id p) = portsTokens c := by
  rw [linesTokens, portsTokens, List.flatMap_map, List.flatMap_def, List.flatMap_def]
  congr 1
  refine List.map_congr_left fun p hp => ?_
  rw [cut_indented, cut_portText h.id (h.ports p hp)]

mutual

/-- A tree is written as lines with its tokens. -/
theorem treeLines_tokens {limit level : Nat} (depth : Nat) : (t : ComponentTree α) →
    t.AllBelow limit (Component.IsWellFormed IsWritable) level →
    ∃ lines, treeLines depth t = .ok lines ∧ linesTokens lines = treeTokens t
  | .node c children, h => by
    rw [Tree.AllBelow] at h
    obtain ⟨⟨hc, -⟩, hchildren⟩ := h
    obtain ⟨head, hhead, hcut⟩ := cut_headText hc
    obtain ⟨inside, hinside, htokens⟩ := forestLines_tokens (depth + 1) children hchildren
    cases hempty : children.isEmpty && c.ports.isEmpty with
    | true =>
      refine ⟨[indent depth ++ head], ?_, ?_⟩
      · rw [treeLines, hhead]
        simp only [hempty]
        rfl
      · have hline := hcut [] (by simp)
        rw [List.append_nil, cut_nil, List.append_nil] at hline
        rw [treeTokens, hempty, linesTokens, List.flatMap_singleton, cut_indented, hline]
        rfl
    | false =>
      refine ⟨[s!"{indent depth}{head} \x7b"] ++
        (c.ports.map fun p => indent (depth + 1) ++ portText c.id p) ++ inside ++
        [indent depth ++ "\x7d"], ?_, ?_⟩
      · rw [treeLines, hhead]
        simp only [hempty]
        rw [show forestLines (depth + 1) children = _ from hinside]
        rfl
      · have hline : cut (s!"{indent depth}{head} \x7b").toList =
            headTokens c ++ [token .leftBrace "\x7b"] := by
          have htext : s!"{indent depth}{head} \x7b".toList =
              (indent depth).toList ++ (head.toList ++ [' ', '\x7b']) := by
            simp [toString]
          rw [htext, cut_indent, hcut _ (by simp), cut_space, cut_delimiter (k := .leftBrace) rfl]
          rfl
        have hclose : cut (indent depth ++ "\x7d").toList = [token .rightBrace "\x7d"] := by
          rw [cut_indented]
          exact cut_delimiter (k := .rightBrace) rfl []
        rw [linesTokens_append, linesTokens_append, linesTokens_append, portLines_tokens hc, htokens,
          linesTokens_singleton, linesTokens_singleton, hline, hclose, treeTokens, hempty]
        simp

theorem forestLines_tokens {limit level : Nat} (depth : Nat) : (ts : List (ComponentTree α)) →
    Tree.ForestAllBelow limit (Component.IsWellFormed IsWritable) level ts →
    ∃ lines, forestLines depth ts = .ok lines ∧ linesTokens lines = forestTokens ts
  | [], _ => ⟨[], rfl, rfl⟩
  | t :: ts, h => by
    rw [Tree.ForestAllBelow] at h
    obtain ⟨first, hfirst, hft⟩ := treeLines_tokens depth t h.1
    obtain ⟨others, hothers, hot⟩ := forestLines_tokens depth ts h.2
    refine ⟨first ++ others, ?_, ?_⟩
    · rw [forestLines, hfirst, hothers]
      rfl
    · rw [linesTokens_append, hft, hot, forestTokens]

end

theorem isIdentifier_type (type : DiagramType) : IsIdentifier type.name :=
  isValue_of_mem_cut (t := token .identifier type.name)
    (by rw [cut_of_spells (spells_type type)]; exact List.mem_singleton.mpr rfl)

/-- A document is written, and is its tokens. -/
theorem cut_document {doc : Document α}
    (hr : Tree.ForestAllBelow 50 (Component.IsWellFormed IsWritable) 0 doc.roots)
    (hc : ∀ c ∈ doc.connectors, cut (connectorText c).toList = connectorTokens c) :
    ∃ text, Print.document doc = .ok text ∧ cut text.toList = documentTokens doc := by
  obtain ⟨inside, hinside, htokens⟩ := forestLines_tokens 1 doc.roots hr
  have hedges : linesTokens (doc.connectors.map fun c => indent 1 ++ connectorText c) =
      doc.connectors.flatMap fun c => connectorTokens c ++ [lineEnd] := by
    rw [linesTokens, List.flatMap_map, List.flatMap_def, List.flatMap_def]
    congr 1
    refine List.map_congr_left fun c hmem => ?_
    rw [cut_indented, hc c hmem]
  have hopen : cut s!"[{doc.type.name}] \x7b".toList =
      bracketTokens doc.type.name ++ [token .leftBrace "\x7b"] := by
    have htext : s!"[{doc.type.name}] \x7b".toList =
        '[' :: (doc.type.name.toList ++ ']' :: [' ', '\x7b']) := by
      simp [toString]
    rw [htext, cut_brackets (isIdentifier_type doc.type), cut_space, cut_delimiter (k := .leftBrace) rfl]
    rfl
  refine ⟨"\n".intercalate ([s!"[{doc.type.name}] \x7b"] ++ inside ++
    (if doc.roots.isEmpty || doc.connectors.isEmpty then [] else [""]) ++
    (doc.connectors.map fun c => indent 1 ++ connectorText c) ++ ["\x7d"]) ++ "\n", ?_, ?_⟩
  · rw [Print.document, documentLines, hinside]
    rfl
  · rw [cut_lines (by simp), linesTokens_append, linesTokens_append, linesTokens_append,
      linesTokens_append, htokens, hedges, linesTokens_singleton, linesTokens_singleton, hopen,
      documentTokens, insideTokens, show cut ("\x7d" : String).toList = [token .rightBrace "\x7d"] from
        cut_delimiter (k := .rightBrace) rfl []]
    split <;> simp [linesTokens]

end ComponentDiagram.Print
