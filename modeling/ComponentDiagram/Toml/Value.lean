import ComponentDiagram.Numeric.Shortest
import ComponentDiagram.Text.Quoted
import ComponentDiagram.Toml.Date

/-! Values of TOML documents, and how messages show them. -/
namespace ComponentDiagram.Toml

inductive Value
  | string (text : String)
  | integer (n : Int)
  | float (x : Float)
  | boolean (b : Bool)
  | date (d : Date)
  | time (t : Time)
  | dateTime (d : Date) (t : Time) (offset : Option Offset)
  | array (items : List Value)
  | table (entries : List (String × Value))
deriving Inhabited

/-- Entries of a table in the order of the document. -/
abbrev Table := List (String × Value)

mutual

def Value.display : Value → String
  | .string text => Text.quoted text
  | .integer n => toString n
  | .float x => Shortest.text x
  | .boolean b => if b then "True" else "False"
  | .date d => d.display
  | .time t => t.display
  | .dateTime d t offset => displayDateTime d t offset
  | .array items => "[" ++ ", ".intercalate (displayItems items) ++ "]"
  | .table entries => "\x7b" ++ ", ".intercalate (displayEntries entries) ++ "\x7d"

def displayItems : List Value → List String
  | [] => []
  | v :: vs => v.display :: displayItems vs

def displayEntries : List (String × Value) → List String
  | [] => []
  | (key, v) :: entries => s!"{Text.quoted key}: {v.display}" :: displayEntries entries

end

/-- An integer is shown with at most 4300 digits. -/
def integerLimit : Nat := Nat.pow 10 4300

mutual

/-- No integer in the value is too long to be shown. -/
def Value.canDisplay : Value → Bool
  | .integer n => n.natAbs < integerLimit
  | .array items => canDisplayItems items
  | .table entries => canDisplayEntries entries
  | _ => true

def canDisplayItems : List Value → Bool
  | [] => true
  | v :: vs => v.canDisplay && canDisplayItems vs

def canDisplayEntries : List (String × Value) → Bool
  | [] => true
  | (_, v) :: entries => v.canDisplay && canDisplayEntries entries

end

end ComponentDiagram.Toml
