/-! Characters that steer a terminal. -/
namespace ComponentDiagram.Text

/-- Digits, `;` and `?` stand between the opening of an escape sequence and its last letter. -/
def isSequenceParameter (c : Char) : Bool := c.isDigit || c == ';' || c == '?'

/-- The text after an escape sequence: escape, `[`, parameters and an ASCII letter. -/
def afterSequence? : List Char → Option (List Char)
  | '\x1b' :: '[' :: rest =>
    match rest.dropWhile isSequenceParameter with
    | c :: after => if c.isAlpha then some after else none
    | [] => none
  | _ => none

/-- A text without its escape sequences; the first `skip` characters belong to one already found. -/
def withoutSequences : Nat → List Char → List Char
  | _, [] => []
  | skip + 1, _ :: rest => withoutSequences skip rest
  | 0, c :: rest =>
    match afterSequence? (c :: rest) with
    | some after => withoutSequences (rest.length - after.length) rest
    | none => c :: withoutSequences 0 rest

/-- A text as it goes to a stream that is no terminal. -/
def plain (text : String) : String := String.ofList (withoutSequences 0 text.toList)

/-- Bell, backspace, vertical tab, form feed and carriage return move what stands around them. -/
def movesCursor (c : Char) : Bool :=
  c == '\x07' || c == '\x08' || c == '\x0b' || c == '\x0c' || c == '\r'

/-- A text that can be styled: it holds nothing that moves the cursor. -/
def steady (text : String) : String :=
  String.ofList (text.toList.filter fun c => !movesCursor c)

end ComponentDiagram.Text
