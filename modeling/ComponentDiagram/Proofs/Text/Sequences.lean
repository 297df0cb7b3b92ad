import ComponentDiagram.Text.Control
import Mathlib

/-! A text goes to a stream that is no terminal as it is, unless it holds an escape sequence. -/
namespace ComponentDiagram.Text

/-- An escape sequence starts somewhere in the text. -/
def HoldsSequence (cs : List Char) : Prop := ∃ s, s <:+ cs ∧ (afterSequence? s).isSome = true

theorem withoutSequences_cons (c : Char) (rest : List Char) :
    withoutSequences 0 (c :: rest) = match afterSequence? (c :: rest) with
      | some after => withoutSequences (rest.length - after.length) rest
      | none => c :: withoutSequences 0 rest :=
  rfl

theorem length_withoutSequences_le (skip : Nat) (cs : List Char) :
    (withoutSequences skip cs).length ≤ cs.length := by
  induction cs generalizing skip with
  | nil => cases skip <;> exact Nat.le_refl _
  | cons c rest ih =>
    cases skip with
    | succ skip => exact (ih skip).trans (Nat.le_succ _)
    | zero =>
      rw [withoutSequences_cons]
      split
      · exact (ih _).trans (Nat.le_succ _)
      · exact Nat.succ_le_succ (ih 0)

theorem withoutSequences_eq_iff {cs : List Char} :
    withoutSequences 0 cs = cs ↔ ¬ HoldsSequence cs := by
  induction cs with
  | nil =>
    refine iff_of_true rfl fun ⟨s, hs, h⟩ => ?_
    rw [List.suffix_nil.mp hs] at h
    cases h
  | cons c rest ih =>
    have hholds : HoldsSequence (c :: rest) ↔
        (afterSequence? (c :: rest)).isSome = true ∨ HoldsSequence rest := by
      simp only [HoldsSequence, List.suffix_cons_iff, or_and_right, exists_or, exists_eq_left]
    rw [hholds, withoutSequences_cons]
    cases afterSequence? (c :: rest) with
    | none => simp [ih]
    | some after =>
      have hle := length_withoutSequences_le (rest.length - after.length) rest
      refine iff_of_false (fun he => ?_) (by simp)
      simp only at he
      rw [he, List.length_cons] at hle
      omega

/-- A text loses nothing on its way to the stream exactly if it holds no escape sequence. -/
theorem plain_eq_iff {text : String} : plain text = text ↔ ¬ HoldsSequence text.toList := by
  rw [← withoutSequences_eq_iff, ← String.toList_inj, plain, String.toList_ofList]

/-! ## Texts in which no escape stands before a bracket -/

def IsCalm (cs : List Char) : Prop := cs.IsChain fun a b => a = '\x1b' → b ≠ '['

theorem IsCalm.not_holds {cs : List Char} (h : IsCalm cs) : ¬ HoldsSequence cs := by
  rintro ⟨s, hs, hsome⟩
  rw [afterSequence?.eq_def] at hsome
  split at hsome
  · have hpair := List.IsChain.suffix h hs
    exact (List.isChain_cons_cons.mp hpair).1 rfl rfl
  · cases hsome

theorem isCalm_of_not_mem {cs : List Char} (h : '\x1b' ∉ cs) : IsCalm cs := by
  refine (List.pairwise_of_forall_mem_list fun a ha b _ => ?_).isChain
  rintro rfl
  exact absurd ha h

/-- A text may follow one that holds no escape, and one that starts with no bracket may follow
any. -/
theorem isCalm_append {a b : List Char} (ha : IsCalm a) (hb : IsCalm b)
    (hne : '\x1b' ∉ a ∨ b.head? ≠ some '[') : IsCalm (a ++ b) := by
  refine List.isChain_append.mpr ⟨ha, hb, ?_⟩
  rintro x hx y hy rfl rfl
  rcases hne with hne | hne
  · exact hne (List.mem_of_getLast? hx)
  · exact hne hy

theorem isCalm_intercalate {separator : Char} (hs : separator ≠ '\x1b' ∧ separator ≠ '[')
    {ws : List (List Char)} (h : ∀ w ∈ ws, IsCalm w) : IsCalm ([separator].intercalate ws) := by
  induction ws with
  | nil => exact .nil
  | cons w ws ih =>
    obtain ⟨hw, hws⟩ := List.forall_mem_cons.mp h
    cases ws with
    | nil => simpa using hw
    | cons v ws =>
      have hfirst : '\x1b' ∉ [separator] := by simpa using hs.1.symm
      have hrest := isCalm_append (isCalm_of_not_mem hfirst) (ih hws) (.inl hfirst)
      rw [List.intercalate_cons_cons, List.append_assoc]
      exact isCalm_append hw hrest (.inr (by simpa using hs.2))

end ComponentDiagram.Text
