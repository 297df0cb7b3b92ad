import ComponentDiagram.Numeric.Shortest
import ComponentDiagram.Text.Quoted

/-! JSON values and their text: ASCII only, two spaces for every level. -/
namespace ComponentDiagram.Json

inductive Value
  | null
  | bool (b : Bool)
  | int (n : Int)
  | float (x : Float)
  | string (text : String)
  | array (items : List Value)
  | object (entries : List (String × Value))
deriving Inhabited

/-- A character inside a string. What is not printable ASCII is written as its UTF-16 units. -/
def escaped (c : Char) : List Char :=
  let unit (code : Nat) := '\\' :: 'u' :: Text.hexadecimal 4 code
  if c = '\x22' then ['\\', '\x22']
  else if c = '\\' then ['\\', '\\']
  else if c = '\n' then ['\\', 'n']
  else if c = '\r' then ['\\', 'r']
  else if c = '\t' then ['\\', 't']
  else if c = '\x08' then ['\\', 'b']
  else if c = '\x0c' then ['\\', 'f']
  else if 32 ≤ c.toNat && c.toNat < 127 then [c]
  else if c.toNat < 0x10000 then unit c.toNat
  else
    let above := c.toNat - 0x10000
    unit (0xD800 + above / 0x400) ++ unit (0xDC00 + above % 0x400)

def stringText (text : String) : String :=
  String.ofList ('\x22' :: text.toList.flatMap escaped ++ ['\x22'])

/-- Infinities and what is no number are written as words. -/
def floatText (x : Float) : String :=
  match Binary64.ofFloat x with
  | .finite .. => Shortest.text x
  | .infinite negative => if negative then "-Infinity" else "Infinity"
  | .nan => "NaN"

/-- The number that such a word stands for. -/
def wordNumber? (word : String) : Option Float :=
  if word = "Infinity" then some (nearestFloat false (Nat.pow 2 1024) 1)
  else if word = "-Infinity" then some (nearestFloat true (Nat.pow 2 1024) 1)
  else if word = "NaN" then some (0.0 / 0.0)
  else none

def indent (depth : Nat) : String := String.ofList (List.replicate (2 * depth) ' ')

/-- Items between brackets, each on a line of its own; no items need no lines. -/
def block (depth : Nat) (opening closing : String) (items : List String) : String :=
  if items.isEmpty then opening ++ closing
  else
    let inner := items.map fun item => indent (depth + 1) ++ item
    opening ++ "\n" ++ ",\n".intercalate inner ++ "\n" ++ indent depth ++ closing

mutual

def Value.text (depth : Nat) : Value → String
  | .null => "null"
  | .bool b => if b then "true" else "false"
  | .int n => toString n
  | .float x => floatText x
  | .string text => stringText text
  | .array items => block depth "[" "]" (itemTexts (depth + 1) items)
  | .object entries => block depth "\x7b" "\x7d" (entryTexts (depth + 1) entries)

def itemTexts (depth : Nat) : List Value → List String
  | [] => []
  | v :: vs => v.text depth :: itemTexts depth vs

def entryTexts (depth : Nat) : List (String × Value) → List String
  | [] => []
  | (key, v) :: entries => (stringText key ++ ": " ++ v.text depth) :: entryTexts depth entries

end

end ComponentDiagram.Json
