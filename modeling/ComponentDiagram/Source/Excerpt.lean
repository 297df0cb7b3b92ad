import ComponentDiagram.Path
import ComponentDiagram.Text.Lines

/-! Errors with a place in a text: the location, the lines around it and a marker below the
faulty column. -/
namespace ComponentDiagram

/-- A count from the end where it is negative, as an index into a list of a given length. -/
def sliceEnd (length : Nat) (index : Int) : Nat :=
  if index < 0 then ((length : Int) + index).toNat else min length index.toNat

/-- The lines from `context` before a line to `context` after it, as far as they exist. -/
def excerpt (text : String) (line : Int) (context : Int) : String :=
  let ls := Text.lines text.toList
  let first := (line - 1 - context).toNat
  let last := sliceEnd ls.length (min ls.length (line + context))
  String.ofList (Text.unlines ((ls.take last).drop first))

/-- Where an error stands, in which file, and the source lines around it. -/
structure ErrorContext where
  line : Int
  column : Int
  file : Option Path := none
  snippet : Option String := none
deriving Repr, DecidableEq, Inhabited

namespace ErrorContext

/-- How a text without a file is called. -/
def fileName (file : Option Path) : String :=
  match file with
  | some path => path.toString
  | none => "<input>"

def location (c : ErrorContext) : String :=
  s!"{fileName c.file}:{c.line}:{c.column}"

/-- The number of a line, four wide, before its text. -/
def lineLabel (number : Int) : List Char :=
  let digits := (toString number).toList
  List.replicate (4 - digits.length) ' ' ++ digits ++ [' ', '|', ' ']

/-- Numbered lines, with a marker under the line that is the error's. -/
def numbered (c : ErrorContext) : Int → List (List Char) → List (List Char)
  | _, [] => []
  | number, line :: rest =>
    let label := lineLabel number
    let marker := List.replicate ((label.length : Int) + c.column - 1).toNat ' ' ++ ['^', '^', '^']
    let shown := if number = c.line then [label ++ line, marker] else [label ++ line]
    shown ++ numbered c (number + 1) rest

/-- The location, and the snippet below it if there is one. The snippet starts two lines before the
error, or at line one. -/
def display (c : ErrorContext) : String :=
  match c.snippet with
  | none => c.location
  | some snippet =>
    if snippet = "" then c.location
    else
      let ls := c.numbered (max 1 (c.line - 2)) (Text.lines snippet.toList)
      c.location ++ "\n" ++ String.ofList (Text.unlines ls)

end ErrorContext

/-- A message that may know where it belongs. -/
structure LocatedError where
  message : String
  context : Option ErrorContext := none
deriving Repr, DecidableEq, Inhabited

namespace LocatedError

def text (e : LocatedError) : String :=
  match e.context with
  | some c => c.display ++ "\n" ++ e.message
  | none => e.message

/-- An error without a place counts as standing at the start. -/
def line (e : LocatedError) : Int := (e.context.map (·.line)).getD 1

def column (e : LocatedError) : Int := (e.context.map (·.column)).getD 1

/-- An error of a whole file stands at its start. -/
def ofFile (message : String) (file : Option Path) : LocatedError :=
  ⟨message, file.map fun path => { line := 1, column := 1, file := some path }⟩

end LocatedError

end ComponentDiagram
