import ComponentDiagram.Grammar.Reader
import ComponentDiagram.Proofs.Source.Value
import ComponentDiagram.Proofs.Text.Blank

/-! Labels: tokens joined by spaces, without those that are white space at either end. -/
namespace ComponentDiagram.Source
open Grammar

/-- A token of white space; a blank is no token, but other white space is. -/
def isBlankToken (t : Token) : Bool := Text.isBlankWord t.text.toList

theorem Spells.isWord {k : TokenKind} {cs : List Char} (h : Spells k cs) : Text.IsWord cs := by
  refine ⟨h.ne_nil, ?_⟩
  by_cases hw : ∃ c ∈ cs, Text.isWhitespace c = true
  · obtain ⟨c, hc, hb⟩ := hw
    have he := h.eq_singleton hc (boundary_of_whitespace hb)
    left
    intro d hd
    rw [he] at hd
    rwa [List.mem_singleton.mp hd]
  · right
    intro c hc
    cases hb : Text.isWhitespace c with
    | false => rfl
    | true => exact absurd ⟨c, hc, hb⟩ hw

theorem strip_map {β γ : Type} (f : β → γ) (p : γ → Bool) (l : List β) :
    strip p (l.map f) = (strip (p ∘ f) l).map f := by
  rw [strip, strip, List.dropWhile_map, ← List.map_reverse, List.dropWhile_map, List.map_reverse]

/-- The text of a label is its tokens without white space at the ends, joined by spaces. -/
theorem toList_joined {ts : List Token} (h : ∀ t ∈ ts, IsToken t) : (Reader.joined ts).toList =
    [' '].intercalate ((strip isBlankToken ts).map fun t => t.text.toList) := by
  have hwords : ∀ w ∈ ts.map fun t => t.text.toList, Text.IsWord w := by
    intro w hw
    obtain ⟨t, ht, rfl⟩ := List.mem_map.mp hw
    exact (h t ht).spells.isWord
  have hspace : (" " : String).toList = [' '] := rfl
  rw [Reader.joined, String.toList_ofList, String.toList_intercalate, List.map_map, hspace]
  rw [show (String.toList ∘ fun t : Token => t.text) = fun t => t.text.toList from rfl,
    Text.trim_join hwords, strip_map]
  rfl

/-- A label is cut into its tokens again. -/
theorem cut_joined {ts : List Token} (h : ∀ t ∈ ts, IsToken t) :
    cut (Reader.joined ts).toList = strip isBlankToken ts := by
  rw [toList_joined h, cut_intercalate]
  exact fun t ht => h t (mem_of_mem_strip ht)

/-- Tokens of white space are lost at the end of a label. -/
theorem joined_append {ts ws : List Token} (h : ∀ t ∈ ws, isBlankToken t = true) :
    Reader.joined (ts ++ ws) = Reader.joined ts := by
  have hwords : ∀ c ∈ [' '].intercalate (ws.map fun t => t.text.toList),
      Text.isWhitespace c = true := by
    intro c hc
    rcases Text.mem_join hc with rfl | ⟨w, hw, hc⟩
    · decide
    · obtain ⟨t, ht, rfl⟩ := List.mem_map.mp hw
      exact List.all_eq_true.mp (h t ht) c hc
  have hspace : (" " : String).toList = [' '] := rfl
  rw [Reader.joined, Reader.joined, String.toList_intercalate, String.toList_intercalate,
    List.map_map, List.map_map, hspace, List.map_append]
  rw [show (String.toList ∘ fun t : Token => t.text) = fun t => t.text.toList from rfl]
  rcases eq_or_ne ws [] with rfl | hws
  · rw [List.map_nil, List.append_nil]
  · rcases eq_or_ne ts [] with rfl | hts
    · rw [List.map_nil, List.nil_append, ← List.nil_append (List.intercalate _ _),
        Text.trim_append hwords]
      rfl
    · rw [Text.join_append (by simpa using hts) (by simpa using hws), Text.trim_append]
      exact List.forall_mem_cons.mpr ⟨by decide, hwords⟩

/-- A character of a label is a space, or stands in a token. -/
theorem mem_joined {ts : List Token} (h : ∀ t ∈ ts, IsToken t) {c : Char}
    (hc : c ∈ (Reader.joined ts).toList) : c = ' ' ∨ ∃ t ∈ ts, c ∈ t.text.toList := by
  rw [toList_joined h] at hc
  rcases Text.mem_join hc with hc | ⟨w, hw, hc⟩
  · exact .inl hc
  · obtain ⟨t, ht, rfl⟩ := List.mem_map.mp hw
    exact .inr ⟨t, mem_of_mem_strip ht, hc⟩

/-- A label of tokens that are no delimiter does not hold it. -/
theorem not_mem_joined {ts : List Token} (h : ∀ t ∈ ts, IsToken t) {c : Char} {k : TokenKind}
    (hk : delimiter? c = some k) (hts : ∀ t ∈ ts, t.kind ≠ k) :
    c ∉ (Reader.joined ts).toList := by
  intro hc
  rcases mem_joined h hc with rfl | ⟨t, ht, hc⟩
  · cases hk
  · exact hts t ht ((h t ht).spells.kind_of_mem hc hk)

end ComponentDiagram.Source
