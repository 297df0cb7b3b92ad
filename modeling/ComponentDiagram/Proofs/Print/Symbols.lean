import ComponentDiagram.Proofs.Grammar.Proper
import ComponentDiagram.Proofs.Print.RoundTrip
import ComponentDiagram.Proofs.Source.Spelling

/-! Which strings are accepted as interface symbols, and which of them can be written. A symbol with
a line feed behind it is accepted like the symbol alone, but it is cut to two tokens. -/
namespace ComponentDiagram
open Source Grammar Print

/-! ## Strings that are accepted -/

namespace Source

theorem spells_symbol_iff {cs : List Char} :
    Spells .interfaceConnector cs ↔ InterfaceSymbol.match? cs = some cs := by
  constructor
  · intro h
    have hconnector := h.connector rfl
    unfold connector? at hconnector
    split at hconnector
    · cases hconnector
    split at hconnector
    · cases hconnector
    split at hconnector
    · cases hconnector
    obtain ⟨mark, hm, he⟩ := Option.map_eq_some_iff.mp hconnector
    cases he
    exact hm
  · intro h
    obtain ⟨p, inner, hcs, -, -⟩ := match?_eq_some h
    have hconnector := connector?_of_match? h
    rw [hcs] at hconnector ⊢
    exact ⟨'-', _, rfl, by decide, (lexeme_rule (by decide)).mpr (.connector rfl hconnector)⟩

/-- Of the strings that end with a line feed, those are accepted that are a symbol without it. -/
theorem accepts_iff {cs : List Char} : InterfaceSymbol.accepts cs = true ↔
    Spells .interfaceConnector cs ∨
      ∃ mark, cs = mark ++ ['\n'] ∧ Spells .interfaceConnector mark := by
  simp only [spells_symbol_iff]
  constructor
  · intro h
    rw [InterfaceSymbol.accepts] at h
    split at h
    · rename_i mark hm
      simp only [Bool.or_eq_true, beq_iff_eq] at h
      rcases h with rfl | rfl
      · exact .inl hm
      · exact .inr ⟨mark, rfl, match?_self hm⟩
    · cases h
  · rintro (h | ⟨mark, rfl, h⟩)
    · simp [InterfaceSymbol.accepts, h]
    · have hboundary : Apart ['\n'] := boundary_newline
      obtain ⟨p, inner, hmark, -, -⟩ := match?_eq_some h
      have happend : InterfaceSymbol.match? (mark ++ ['\n']) = some mark := by
        rw [hmark] at h ⊢
        exact (match?_append hboundary '-' _).trans h
      simp [InterfaceSymbol.accepts, happend]

/-- The string is cut to one interface symbol. -/
def IsLoneSymbol (s : String) : Prop :=
  (tokens s false).map Token.spelling = [(.interfaceConnector, s), (.endOfInput, "")]

instance (s : String) : Decidable (IsLoneSymbol s) := inferInstanceAs (Decidable (_ = _))

/-- The string is cut to an interface symbol and the end of its line. -/
def IsSymbolLine (s : String) : Prop :=
  ∃ mark, s = mark ++ "\n" ∧ (tokens s false).map Token.spelling =
    [(.interfaceConnector, mark), (.newline, "\n"), (.endOfInput, "")]

theorem isLoneSymbol_iff {s : String} : IsLoneSymbol s ↔ Spells .interfaceConnector s.toList := by
  rw [IsLoneSymbol, tokens_alone_iff (by decide) (by decide)]
  exact ⟨fun h => h.spells (by decide) (by decide), fun h =>
    (IsToken.isValue (t := ⟨.interfaceConnector, s, {}⟩) ⟨h, rfl⟩)⟩

theorem isSymbolLine_iff {s : String} : IsSymbolLine s ↔
    ∃ mark, s.toList = mark ++ ['\n'] ∧ Spells .interfaceConnector mark := by
  constructor
  · rintro ⟨mark, rfl, htokens⟩
    rw [tokens_spelling] at htokens
    have hcut : (cut (mark ++ "\n").toList).map Token.spelling =
        [(.interfaceConnector, mark), (.newline, "\n")] :=
      List.append_cancel_right (htokens : _ = [_, _] ++ [(TokenKind.endOfInput, "")])
    obtain ⟨t, ht, hspelled⟩ := List.mem_map.mp (hcut ▸ List.mem_cons_self)
    have hspells := (isToken_of_mem_cut ht).spells
    rw [show t.kind = _ from congrArg Prod.fst hspelled,
      show t.text = _ from congrArg Prod.snd hspelled] at hspells
    exact ⟨mark.toList, String.toList_append, hspells⟩
  · rintro ⟨mark, hs, hspells⟩
    refine ⟨String.ofList mark, ?_, ?_⟩
    · rw [← String.toList_inj, hs, String.toList_append, String.toList_ofList]
      rfl
    · rw [tokens_spelling, hs, hspells.cut_append (b := ['\n']) boundary_newline,
        spells_newline.cut]
      rfl

/-- A string is accepted as an interface symbol if it is one, or one with a line feed behind it. -/
theorem ofString?_isSome_iff {s : String} :
    (InterfaceSymbol.ofString? s).isSome ↔ IsLoneSymbol s ∨ IsSymbolLine s := by
  rw [isLoneSymbol_iff, isSymbolLine_iff, ← accepts_iff, InterfaceSymbol.ofString?]
  split <;> simp [*]

end Source

/-! ## Symbols that are written -/

/-- The connector with an interface symbol instead of how it is drawn. -/
def Connector.drawn (c : Connector) (mark : InterfaceSymbol) : Connector :=
  { c with kind := .interface mark }

/-- A diagram of one connector. -/
def Connector.alone (c : Connector) : Document Float := { connectors := [c] }

/-- The document is written, and read back as it is. -/
def Document.IsReread (doc : Document Float) : Prop :=
  ∃ text, Print.document doc = .ok text ∧ ∀ file, parse text file = .ok doc

theorem Connector.IsCanonical.isReread {c : Connector} (h : c.IsCanonical 0) :
    c.alone.IsReread := by
  have hlegible : c.alone.IsLegible :=
    ⟨trivial, List.forall_mem_singleton.mpr h.isLegible⟩
  have hself : c.alone.reread = c.alone := by
    simp [Document.reread, Connector.alone, Tree.forestMap, h.reread]
  obtain ⟨text, htext, hread⟩ := parse_legible hlegible
  exact ⟨text, htext, hself ▸ hread⟩

/-- What is read back is drawn as one symbol of its text. -/
theorem isReread_drawn_iff {c : Connector} (h : c.IsCanonical 0) (mark : InterfaceSymbol) :
    (c.drawn mark).alone.IsReread ↔ IsLoneSymbol mark.text := by
  rw [IsLoneSymbol, tokens_alone_iff (by decide) (by decide)]
  constructor
  · rintro ⟨text, -, hread⟩
    have hconnector := (parse_isRead (hread none)).connectors (c.drawn mark, 0)
      (List.mem_cons_self ..)
    exact hconnector.symbol mark rfl
  · intro hvalue
    have hsymbol : ∀ mark', (c.drawn mark).kind = .interface mark' →
        IsValue .interfaceConnector mark'.text := by
      rintro mark' he
      cases he
      exact hvalue
    exact Connector.IsCanonical.isReread ⟨⟨h.name, h.interfaceName, hsymbol, h.label⟩, h.id,
      h.origin, h.source, h.target⟩

/-- A string is accepted as an interface symbol if it is cut to one, or to one and the end of its
line. Of an accepted one, a connector is drawn that is written and read back exactly if no line ends
in it. -/
theorem symbol_accepted_iff {c : Connector} (h : c.IsCanonical 0) (s : String) :
    ((InterfaceSymbol.ofString? s).isSome ↔ IsLoneSymbol s ∨ IsSymbolLine s) ∧
    ∀ mark ∈ InterfaceSymbol.ofString? s, (c.drawn mark).alone.IsReread ↔ IsLoneSymbol s := by
  refine ⟨ofString?_isSome_iff, fun mark hmark => ?_⟩
  have htext : mark.text = s := by
    rw [Option.mem_def, InterfaceSymbol.ofString?] at hmark
    split at hmark <;> cases hmark
    rfl
  rw [isReread_drawn_iff h, htext]

/-- A connector between two components that need not be there. -/
def plainPair : Connector :=
  { kind := .plain .short, id := "edge-0", source := ⟨"a", none⟩, target := ⟨"b", none⟩ }

theorem symbol_accepted_iff_plainPair : plainPair.IsCanonical 0 ∧
    ((InterfaceSymbol.ofString? "-()-").isSome ↔ IsLoneSymbol "-()-" ∨ IsSymbolLine "-()-") ∧
    ∀ mark ∈ InterfaceSymbol.ofString? "-()-", (plainPair.drawn mark).alone.IsReread := by
  have hcanonical : plainPair.IsCanonical 0 := by decide +kernel
  have hlone : IsLoneSymbol "-()-" := by decide +kernel
  obtain ⟨haccepted, hreread⟩ := symbol_accepted_iff hcanonical "-()-"
  exact ⟨hcanonical, haccepted, fun mark hmark => (hreread mark hmark).mpr hlone⟩

/-- With a line feed behind it a symbol is accepted, and it is not one symbol of the source. -/
theorem symbol_accepted_before_newline :
    ¬ ∀ s, (InterfaceSymbol.ofString? s).isSome = true ↔ IsLoneSymbol s := by
  intro h
  have haccepted : (InterfaceSymbol.ofString? "-()-\n").isSome = true := by decide +kernel
  have htokens : ¬ IsLoneSymbol "-()-\n" := by decide +kernel
  exact htokens ((h "-()-\n").mp haccepted)

end ComponentDiagram
