import ComponentDiagram.Text.Lines
import ComponentDiagram.Text.Character

/-! Integers in text: a sign and digits of any script, with white space around them and single
underscores between the digits. -/
namespace ComponentDiagram.Text

/-- The value of a decimal digit. Every script has its ten digits in a row, from zero on. -/
def digitValue? (c : Char) : Option Nat :=
  if c.isDigit then some (c.toNat - 48)
  else
    (decimalDigitRanges.find? fun (low, high) => low ≤ c.toNat && c.toNat ≤ high).map
      fun (low, _) => (c.toNat - low) % 10

/-- Digits, and nothing else but single underscores between two of them. -/
def digitRun? : List Char → Option (List Nat)
  | [] => none
  | [c] => (digitValue? c).map ([·])
  | c :: '_' :: rest => do
    let first ← digitValue? c
    let others ← digitRun? rest
    return first :: others
  | c :: d :: rest => do
    let first ← digitValue? c
    let others ← digitRun? (d :: rest)
    return first :: others

/-- White space around a number, to which the controls 28 to 31 do not belong. -/
def isNumberBlank (c : Char) : Bool := isWhitespace c && !(28 ≤ c.toNat && c.toNat ≤ 31)

/-- Whether an integer has a minus sign, and its digits; none if the text is no integer. -/
def signedDigits? (text : List Char) : Option (Bool × List Nat) :=
  match ((text.dropWhile isNumberBlank).reverse.dropWhile isNumberBlank).reverse with
  | '-' :: rest => (digitRun? rest).map (true, ·)
  | '+' :: rest => (digitRun? rest).map (false, ·)
  | rest => (digitRun? rest).map (false, ·)

/-- The number that decimal digits stand for. -/
def digitsValue (digits : List Nat) : Nat := digits.foldl (fun n d => 10 * n + d) 0

end ComponentDiagram.Text
