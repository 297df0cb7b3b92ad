import ComponentDiagram.Model.Diagram

/-! A list of nodes that is edited in place, with an index of their ids that is kept between
lookups. A node is an object: list and index hold its reference, and what it carries is found in a
store. So an edit of the list or of a node says nothing to the index; each lookup checks it and
builds it anew if it does not fit. -/
namespace ComponentDiagram

/-! ## The list -/

/-- A list of node objects. Two objects are the same if their references are. -/
structure NodeList (α : Type) where
  /-- What the object with a reference carries now, in the list or not. -/
  node : Nat → FlatNode α
  /-- The references of the objects in list order. -/
  references : List Nat := []

/-- An edit of the list, or of one object. -/
inductive NodeEdit (α : Type)
  | append (reference : Nat)
  | removeAt (place : Nat)
  | replaceAt (place reference : Nat)
  /-- The list becomes another one, as when it is sorted. -/
  | arrange (references : List Nat)
  /-- An object is changed, in the list or not. -/
  | change (reference : Nat) (change : FlatNode α → FlatNode α)

namespace NodeList

variable {α : Type}

def edit (list : NodeList α) : NodeEdit α → NodeList α
  | .append reference => { list with references := list.references ++ [reference] }
  | .removeAt place => { list with references := list.references.eraseIdx place }
  | .replaceAt place reference => { list with references := list.references.set place reference }
  | .arrange references => { list with references }
  | .change reference change =>
    { list with node := fun r => if r = reference then change (list.node r) else list.node r }

/-- The flat view of the list. -/
def diagram (list : NodeList α) : Diagram α := { nodes := list.references.map list.node }

/-- The last object in the list that has the id. -/
def scan (list : NodeList α) (id : String) : Option Nat :=
  list.references.reverse.find? fun r => (list.node r).id == id

/-- The objects that the children of a node's entry stand for, in order. -/
def scanChildren (list : NodeList α) (id : String) : List Nat :=
  match list.scan id with
  | some r => (list.node r).childIds.filterMap list.scan
  | none => []

/-- A scan finds the node that the id stands for in the flat view. -/
theorem node_scan (list : NodeList α) (id : String) :
    (list.scan id).map list.node = list.diagram.node? id := by
  rw [scan, diagram, Diagram.node?, ← List.map_reverse, List.find?_map]
  rfl

theorem node_scanChildren (list : NodeList α) (id : String) :
    (list.scanChildren id).map list.node = list.diagram.childrenOf id := by
  rw [scanChildren, Diagram.childrenOf, ← node_scan]
  cases list.scan id with
  | none => rfl
  | some r => simp [List.map_filterMap, node_scan]

end NodeList

/-! ## The index -/

/-- Ids, and the reference that each of them stands for. No id comes twice. -/
structure IdIndex where
  entries : List (String × Nat) := []
  distinct : (entries.map Prod.fst).Nodup := by exact List.nodup_nil

namespace IdIndex

def size (index : IdIndex) : Nat := index.entries.length

def get? (index : IdIndex) (id : String) : Option Nat := index.entries.lookup id

/-- The entries with one for the id: its entry is changed, or a new one comes last. -/
def setEntry (id : String) (reference : Nat) : List (String × Nat) → List (String × Nat)
  | [] => [(id, reference)]
  | (key, old) :: rest =>
    if key = id then (key, reference) :: rest else (key, old) :: setEntry id reference rest

theorem keys_setEntry (id : String) (reference : Nat) (entries : List (String × Nat)) :
    (setEntry id reference entries).map Prod.fst =
      if id ∈ entries.map Prod.fst then entries.map Prod.fst
      else entries.map Prod.fst ++ [id] := by
  induction entries with
  | nil => rfl
  | cons entry rest ih =>
    obtain ⟨key, old⟩ := entry
    rw [setEntry]
    by_cases hk : key = id
    · simp [hk]
    · simp only [if_neg hk, List.map_cons, ih, List.mem_cons, Ne.symm hk, false_or]
      split <;> rfl

/-- Let an id stand for a reference, whatever it stood for before. -/
def set (index : IdIndex) (id : String) (reference : Nat) : IdIndex where
  entries := setEntry id reference index.entries
  distinct := by
    rw [keys_setEntry]
    split
    · exact index.distinct
    · rename_i hid
      exact List.nodup_append.mpr ⟨index.distinct, by simp, fun a ha b hb => by
        rw [List.mem_singleton.mp hb]
        exact fun he => hid (he ▸ ha)⟩

theorem get?_set (index : IdIndex) (id key : String) (reference : Nat) :
    (index.set id reference).get? key = if key = id then some reference else index.get? key := by
  change (setEntry id reference index.entries).lookup key = _
  rw [get?]
  induction index.entries with
  | nil => by_cases hk : key = id <;> simp [setEntry, List.lookup_cons, hk, beq_false_of_ne]
  | cons entry rest ih =>
    obtain ⟨old, r⟩ := entry
    rw [setEntry]
    by_cases ho : old = id
    · by_cases hk : key = id <;> simp [List.lookup_cons, ho, hk, beq_false_of_ne]
    · by_cases hk : key = old <;> simp [List.lookup_cons, ho, hk, beq_false_of_ne, ih]

/-- An id stands for something exactly if it has an entry. -/
theorem isSome_get? (index : IdIndex) (id : String) :
    (index.get? id).isSome = true ↔ id ∈ index.entries.map Prod.fst := by
  simp [get?, List.lookup_isSome_iff]

end IdIndex

/-- The index of a list; of two objects with one id the later one counts. -/
def NodeList.index {α : Type} (list : NodeList α) : IdIndex :=
  list.references.foldl (fun index r => index.set (list.node r).id r) {}

/-! ## Lookups -/

/-- A list with the index that the last lookup left. -/
structure NodeTable (α : Type) extends NodeList α where
  kept : IdIndex := {}

namespace NodeTable

variable {α : Type}

/-- The index has as many ids as there are objects, and leads from every object's id back to it. -/
def fits (table : NodeTable α) : Bool :=
  table.kept.size == table.references.length &&
    table.references.all fun r => table.kept.get? (table.node r).id == some r

/-- The table with an index that fits, the old one if it does. -/
def refresh (table : NodeTable α) : NodeTable α :=
  if table.fits then table else { table with kept := table.index }

/-- Look an id up in the index, and keep the index for the next lookup. -/
def lookup (table : NodeTable α) (id : String) : Option Nat × NodeTable α :=
  (table.refresh.kept.get? id, table.refresh)

/-- Look a node up, and then its children; the index is checked for each of the two. -/
def children (table : NodeTable α) (id : String) : List Nat × NodeTable α :=
  match table.lookup id with
  | (none, current) => ([], current)
  | (some r, current) =>
    ((current.node r).childIds.filterMap current.refresh.kept.get?, current.refresh)

/-- An edit leaves the index as it was. -/
def edit (table : NodeTable α) (edit : NodeEdit α) : NodeTable α :=
  { table with toNodeList := table.toNodeList.edit edit }

/-! ## The objects of a diagram -/

/-- The nodes of a diagram as objects, with no index so far. -/
def ofNodes [Scalar α] (nodes : List (FlatNode α)) : NodeTable α where
  node r := nodes.getD r { id := "", label := "", x := Scalar.zero, y := Scalar.zero }
  references := List.range nodes.length

/-- An object carries another node. -/
def change (table : NodeTable α) (entry : Nat × FlatNode α) : NodeTable α :=
  table.edit (.change entry.1 fun _ => entry.2)

/-- The objects of the list carry the nodes that they are given, in list order. -/
def carry (table : NodeTable α) (nodes : List (FlatNode α)) : NodeTable α :=
  (table.references.zip nodes).foldl change table

/-- A reference that neither the list nor the index has. -/
def fresh (table : NodeTable α) : Nat :=
  (table.references ++ table.kept.entries.map Prod.snd).foldr (· + ·) 0 + 1

/-- An edit that brings a new object into the list. -/
def editNew (table : NodeTable α) (n : FlatNode α) (edit : Nat → NodeEdit α) : NodeTable α :=
  (table.change (table.fresh, n)).edit (edit table.fresh)

end NodeTable

end ComponentDiagram
