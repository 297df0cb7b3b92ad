/-! File paths as text: slashes collapsed and `.` components dropped, `..` kept. -/
namespace ComponentDiagram

/-- A path is its leading slashes and its components. -/
structure Path where
  root : String := ""
  parts : List String := []
deriving Repr, DecidableEq, Inhabited

namespace Path

/-- Split at slashes. -/
def components : List Char → List (List Char)
  | [] => [[]]
  | c :: rest =>
    if c = '/' then [] :: components rest
    else match components rest with
      | [] => [[c]]
      | part :: others => (c :: part) :: others

/-- Exactly two leading slashes stay two; any other number of them is one root. -/
def rootOf : List Char → String
  | '/' :: '/' :: '/' :: _ => "/"
  | '/' :: '/' :: _ => "//"
  | '/' :: _ => "/"
  | _ => ""

def ofString (text : String) : Path :=
  let parts := (components text.toList).filter fun part => part != [] && part != ['.']
  ⟨rootOf text.toList, parts.map String.ofList⟩

/-- The empty path is written `.`. -/
protected def toString (path : Path) : String :=
  if path.root = "" && path.parts.isEmpty then "."
  else path.root ++ "/".intercalate path.parts

/-- The path without its last component; a root or an empty path is its own parent. -/
def parent (path : Path) : Path :=
  { path with parts := path.parts.dropLast }

/-- No file has the character zero in its path. -/
def isUsable (path : Path) : Bool := path.parts.all fun part => !part.toList.contains '\x00'

def append (path : Path) (name : String) : Path :=
  { path with parts := path.parts ++ [name] }

end Path

end ComponentDiagram
