import ComponentDiagram.Command.FileTree
import Mathlib

/-! A file that is given another content: it is found where it was, and nothing else changes. -/
namespace ComponentDiagram

/-- The second tree is the first one with another text in a file. -/
structure FileTree.IsRewritten (before after : FileTree) (file : Path) (text : String) : Prop where
  read : after.read file = .ok text.toUTF8
  others : ∃ place old, before.find file = .ok (place, .file old) ∧
    ∀ other, other ≠ place → after.entry? other = before.entry? other

namespace FileTree

variable {tree : FileTree} {place : List String} {old : ByteArray}

theorem lookup_of_file (h : tree.entry? place = some (.file old)) :
    tree.entries.lookup place = some (.file old) := by
  unfold entry? at h
  split at h
  · rename_i e he
    rw [he, h]
  · split at h <;> cases h

/-- A walk ends at a file that stands there. -/
theorem entry?_of_walk {here names : List String}
    (h : tree.walk here names = .ok (place, .file old)) :
    tree.entry? place = some (.file old) := by
  fun_induction walk tree here names with
  | case1 => cases h
  | case2 _ _ ih => exact ih h
  | case3 => cases h
  | case4 _ _ _ _ _ _ ih => exact ih h
  | case5 _ _ _ _ _ _ he =>
    cases h
    exact he
  | case6 => cases h
  | case7 => cases h

/-- The tree with another content in the file at a place. -/
def replaced (tree : FileTree) (place : List String) (content : ByteArray) : FileTree :=
  { tree with
    entries := tree.entries.map fun (p, e) => (p, if p = place then .file content else e) }

theorem write_eq {path : Path} (h : tree.find path = .ok (place, .file old)) (content : ByteArray) :
    tree.write path content = tree.replaced place content := by
  rw [write, h]
  rfl

theorem entry?_replaced (h : tree.entry? place = some (.file old)) (content : ByteArray)
    (other : List String) : entry? (tree.replaced place content) other =
      if other = place then some (.file content) else tree.entry? other := by
  have hlookup (entries : List (List String × FileEntry)) :
      (entries.map fun (p, e) => (p, if p = place then FileEntry.file content else e)).lookup other =
        (entries.lookup other).map fun e => if other = place then .file content else e := by
    induction entries with
    | nil => rfl
    | cons entry rest ih =>
      obtain ⟨p, e⟩ := entry
      by_cases hp : other = p
      · simp [hp]
      · simp [List.lookup_cons, beq_eq_false_iff_ne.mpr hp, ih]
  have hany : (tree.replaced place content).entries.any (other.isPrefixOf ·.1) =
      tree.entries.any (other.isPrefixOf ·.1) := by
    rw [replaced, List.any_map]
    rfl
  unfold entry?
  rw [hany, replaced]
  simp only [hlookup]
  by_cases hother : other = place
  · subst hother
    simp [lookup_of_file h]
  · cases tree.entries.lookup other <;> simp [hother]

theorem walk_replaced {here names : List String} (content : ByteArray)
    (h : tree.walk here names = .ok (place, .file old)) :
    (tree.replaced place content).walk here names = .ok (place, .file content) := by
  have hentry := entry?_replaced (entry?_of_walk h) content
  have hplace := entry?_of_walk h
  fun_induction walk tree here names with
  | case1 => cases h
  | case2 here rest ih =>
    rw [walk]
    exact ih h
  | case3 => cases h
  | case4 here name rest hname hlength hdir ih =>
    have hne : here ++ [name] ≠ place := by
      rintro rfl
      rw [hdir] at hplace
      cases hplace
    rw [walk, if_neg hlength, hentry, if_neg hne, hdir]
    exact ih h
    exact hname
  | case5 here name rest hname hlength _ _ hrest =>
    cases h
    rw [walk, if_neg hlength, hentry, if_pos rfl]
    simp only [hrest, if_true]
    exact hname
  | case6 => cases h
  | case7 => cases h

theorem find_replaced {path : Path} (h : tree.find path = .ok (place, .file old))
    (content : ByteArray) :
    (tree.replaced place content).find path = .ok (place, .file content) := by
  rw [find] at h ⊢
  split at h
  · cases h
  · rename_i hlength
    rw [if_neg hlength]
    exact walk_replaced content h

/-- A file that can be read is rewritten, and nothing else. -/
theorem isRewritten_write {path : Path} (h : tree.read path = .ok old) (text : String) :
    tree.IsRewritten (tree.write path text.toUTF8) path text := by
  obtain ⟨place, hfind⟩ : ∃ place, tree.find path = .ok (place, .file old) := by
    rw [read] at h
    split at h <;> cases h
    exact ⟨_, ‹_›⟩
  have hentry : tree.entry? place = some (.file old) := by
    rw [find] at hfind
    split at hfind
    · cases hfind
    · exact entry?_of_walk hfind
  rw [write_eq hfind]
  refine ⟨?_, place, old, hfind, fun other hne => ?_⟩
  · rw [read, find_replaced hfind]
  · rw [entry?_replaced hentry, if_neg hne]

end FileTree

end ComponentDiagram
