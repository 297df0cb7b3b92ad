import ComponentDiagram.Proofs.Source.Coverage
import ComponentDiagram.Proofs.Source.Value

/-! How tokens are spelled. A value that a token has in some text is cut to this token again when it
stands alone, and values with a single space between any two are cut apart again. -/
namespace ComponentDiagram

/-- The kind and the value of a token, wherever it stands. -/
def Token.spelling (t : Token) : TokenKind × String := (t.kind, t.text)

@[simp] theorem Token.spelling_unplaced (t : Token) : t.unplaced.spelling = t.spelling := rfl

namespace Source

theorem wordKind_plain (word : List Char) :
    (wordKind word).isConnector = false ∧ wordKind word ≠ .number := by
  unfold wordKind
  repeat' split
  all_goals exact ⟨rfl, by decide⟩

theorem delimiter_plain {c : Char} {k : TokenKind} (h : delimiter? c = some k) :
    k.isConnector = false ∧ k ≠ .side ∧ k ≠ .number := by
  unfold delimiter? at h
  split at h <;> cases h <;> exact ⟨rfl, by decide, by decide⟩

/-- The text of a connector is found where connectors are looked for. -/
theorem Spells.connector {k : TokenKind} {cs : List Char} (h : Spells k cs)
    (hk : k.isConnector = true) : connector? cs = some (k, cs) := by
  obtain ⟨c, tail, rfl, hc, hl⟩ := h
  have hrule := (lexeme_rule hc).mp hl
  generalize hx : c :: tail = x at hrule
  cases hrule with
  | newline => cases hk
  | delimiter _ hd => rw [(delimiter_plain hd).1] at hk; cases hk
  | connector _ hf => rwa [hx] at hf
  | word => rw [(wordKind_plain _).1] at hk; cases hk
  | number => cases hk
  | other => cases hk

/-- The tokens of a text without blanks are its cut, and then the end of input. -/
theorem tokens_spelling (text : String) : (tokens text false).map Token.spelling =
    (cut text.toList).map Token.spelling ++ [(.endOfInput, "")] := by
  obtain ⟨pieces, he, hpieces⟩ := scan_ended ⟨1, 1⟩ text.toList
  have hkept : pieces.filter (fun t => t.kind != .blank) = pieces.filter isSubstantial := by
    refine List.filter_congr fun t ht => ?_
    simp [isSubstantial, (hpieces t ht).1]
  have hcut : cut text.toList = (pieces.filter isSubstantial).map Token.unplaced := by
    rw [cut, show scan true {} 0 text.toList = _ from he, List.filter_append]
    simp [isSubstantial]
  rw [tokens_false, tokens, he, List.filter_append, hkept, hcut,
    List.map_append, List.map_map]
  rfl

/-- A text is one token of a kind exactly if it is a value of this kind. -/
theorem tokens_alone_iff {k : TokenKind} (hb : k ≠ .blank) (he : k ≠ .endOfInput) (value : String) :
    (tokens value false).map Token.spelling = [(k, value), (.endOfInput, "")] ↔
      IsValue k value := by
  rw [tokens_spelling, isValue_iff hb he]
  constructor
  · intro h
    have hcut : (cut value.toList).map Token.spelling = [(k, value)] :=
      List.append_cancel_right (h : _ = [(k, value)] ++ [(.endOfInput, "")])
    obtain ⟨t, ht, hspelled⟩ := List.map_eq_singleton_iff.mp hcut
    have hplace : t.position = {} := (isToken_of_mem_cut (ht ▸ List.mem_singleton_self t)).position
    obtain ⟨kind, text, position⟩ := t
    cases hspelled
    cases hplace
    exact ht
  · intro h
    rw [h]
    rfl

/-- A token that a text is cut to, with blanks or without. -/
def IsEmitted (t : Token) : Prop := ∃ text keepBlanks, t ∈ tokens text keepBlanks

theorem IsEmitted.isValue {t : Token} (h : IsEmitted t) : IsValue t.kind t.text := by
  obtain ⟨text, keepBlanks, ht⟩ := h
  refine ⟨text, t, ?_, rfl, rfl⟩
  cases keepBlanks with
  | true => exact ht
  | false =>
    rw [tokens_false] at ht
    exact (List.mem_filter.mp ht).1

theorem IsEmitted.isToken {t : Token} (h : IsEmitted t) (hb : t.kind ≠ .blank)
    (he : t.kind ≠ .endOfInput) : IsToken t.unplaced :=
  ⟨h.isValue.spells hb he, rfl⟩

/-- Single spaces restore the boundaries between tokens, whatever stood between them where they were
cut: the joined values of any tokens are cut to tokens of the same kinds and values. -/
theorem tokens_spaced {ts : List Token}
    (h : ∀ t ∈ ts, IsEmitted t ∧ t.kind ≠ .blank ∧ t.kind ≠ .endOfInput) :
    (tokens (" ".intercalate (ts.map (·.text))) false).map Token.spelling =
      ts.map Token.spelling ++ [(.endOfInput, "")] := by
  have htokens : ∀ t ∈ ts.map Token.unplaced, IsToken t := by
    intro t ht
    obtain ⟨t, hmem, rfl⟩ := List.mem_map.mp ht
    obtain ⟨hemitted, hb, he⟩ := h t hmem
    exact hemitted.isToken hb he
  have hcut : cut (" ".intercalate (ts.map (·.text))).toList = ts.map Token.unplaced := by
    rw [String.toList_intercalate, ← cut_intercalate _ htokens, List.map_map, List.map_map]
    rfl
  rw [tokens_spelling, hcut, List.map_map]
  rfl

/-- Tokens that touch each other in their text: what ends each of them is the next one. -/
theorem tokens_spaced_touching :
    (∀ t ∈ (tokens "A-->b:-3-(()-->" false).dropLast,
      IsEmitted t ∧ t.kind ≠ .blank ∧ t.kind ≠ .endOfInput) ∧
    (tokens "A- -> b : -3 -(()- ->" false).map Token.spelling =
      [(.identifier, "A-"), (.arrow, "->"), (.identifier, "b"), (.colon, ":"), (.number, "-3"),
        (.interfaceConnector, "-(()-"), (.arrow, "->"), (.endOfInput, "")] := by
  have h : ∀ t ∈ (tokens "A-->b:-3-(()-->" false).dropLast,
      IsEmitted t ∧ t.kind ≠ .blank ∧ t.kind ≠ .endOfInput := by
    intro t ht
    refine ⟨⟨_, false, List.mem_of_mem_dropLast ht⟩, ?_⟩
    revert t
    decide
  refine ⟨h, ?_⟩
  have hspaced := tokens_spaced h
  exact hspaced

end Source

end ComponentDiagram
