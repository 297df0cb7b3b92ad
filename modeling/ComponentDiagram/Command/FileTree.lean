import ComponentDiagram.Path
import ComponentDiagram.Text.Lines

/-! The files that a command sees: a tree of directories with a current one in it. -/
namespace ComponentDiagram

inductive FileEntry
  | file (content : ByteArray)
  | directory
deriving Inhabited

/-- Entries by their components from the root. The directories above an entry need no entry. -/
structure FileTree where
  current : List String
  entries : List (List String × FileEntry)
deriving Inhabited

/-- Why a file cannot be read. -/
inductive FileError
  | missing
  | isDirectory
  | notDirectory
  | nameTooLong
deriving Repr, DecidableEq, Inhabited

def FileError.text : FileError → String
  | missing => "No such file or directory"
  | isDirectory => "Is a directory"
  | notDirectory => "Not a directory"
  | nameTooLong => "File name too long"

namespace FileTree

/-- What stands at a place given from the root. -/
def entry? (tree : FileTree) (place : List String) : Option FileEntry :=
  match tree.entries.lookup place with
  | some e => some e
  | none =>
    if place.isPrefixOf tree.current || tree.entries.any (place.isPrefixOf ·.1) then
      some .directory
    else none

/-- The bytes that a component and a whole path may have. -/
def componentLimit : Nat := 255

def pathLimit : Nat := 4095

/-- Walk from a directory along components. -/
def walk (tree : FileTree) (here : List String) :
    List String → Except FileError (List String × FileEntry)
  | [] => .ok (here, .directory)
  | ".." :: rest => walk tree here.dropLast rest
  | name :: rest =>
    if componentLimit < name.utf8ByteSize then .error .nameTooLong
    else match tree.entry? (here ++ [name]) with
    | some .directory => walk tree (here ++ [name]) rest
    | some (.file content) =>
      if rest.isEmpty then .ok (here ++ [name], .file content) else .error .notDirectory
    | none => .error .missing

/-- Where a path starts. -/
def start (tree : FileTree) (path : Path) : List String :=
  if path.root = "" then tree.current else []

def find (tree : FileTree) (path : Path) : Except FileError (List String × FileEntry) :=
  if pathLimit < path.toString.utf8ByteSize then .error .nameTooLong
  else tree.walk (tree.start path) path.parts

/-- The bytes of a file. -/
def read (tree : FileTree) (path : Path) : Except FileError ByteArray :=
  match tree.find path with
  | .ok (_, .file content) => .ok content
  | .ok (_, .directory) => .error .isDirectory
  | .error e => .error e

/-- Give a file that exists another content. -/
def write (tree : FileTree) (path : Path) (content : ByteArray) : FileTree :=
  match tree.find path with
  | .ok (place, .file _) =>
    { tree with
      entries := tree.entries.map fun (p, e) => (p, if p = place then .file content else e) }
  | _ => tree

/-- The place that a path names, taken by its text alone. -/
def place (tree : FileTree) (path : Path) : List String :=
  path.parts.foldl
    (fun here name => if name = ".." then here.dropLast else here ++ [name]) (tree.start path)

def isFile (tree : FileTree) (place : List String) : Bool :=
  match tree.entry? place with
  | some (.file _) => true
  | _ => false

/-- The nearest file of a name in a directory or above it; the components are given from the last
one on. -/
def nearest (tree : FileTree) (name : String) : List String → Option (List String)
  | [] => if tree.isFile [name] then some [name] else none
  | last :: above =>
    let here := (last :: above).reverse ++ [name]
    if tree.isFile here then some here else nearest tree name above

/-- The nearest file of a name above a path, from the root; a path to a file starts in the
directory of that file. -/
def findAbove (tree : FileTree) (name : String) (path : Path) : Option Path :=
  let place := tree.place path
  let directory := if tree.isFile place then place.dropLast else place
  (tree.nearest name directory.reverse).map fun parts => ⟨"/", parts⟩

/-- The files whose content is another one in the second of two trees, with that content. -/
def changes (before after : FileTree) : List (List String × ByteArray) :=
  after.entries.filterMap fun (place, entry) =>
    match entry, before.entries.lookup place with
    | .file new, some (.file old) => if new.data == old.data then none else some (place, new)
    | _, _ => none

end FileTree

/-- The text of a file: strict UTF-8, with every line end as a line feed. -/
def decodeText (content : ByteArray) : Option String :=
  (String.fromUTF8? content).map fun text => String.ofList (Text.unifyLineEnds text.toList)

end ComponentDiagram
