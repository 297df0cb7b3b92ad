import ComponentDiagram.Grammar.Input
import ComponentDiagram.Grammar.State
import ComponentDiagram.Text.Lines

/-! Steps of a reader over tokens. A failure leaves the reader where it arose. -/
namespace ComponentDiagram.Grammar

/-- Why a reading failed. -/
inductive Failure
  | syntaxError (error : LocatedError)
  /-- A coordinate of more than 4300 digits. -/
  | coordinateTooLong
  /-- A coordinate beyond the largest number. -/
  | coordinateTooLarge
  /-- A number token that is no integer. -/
  | malformedNumber (text : String)
  /-- A side token that names no side. -/
  | unknownSide (text : String)
  /-- An arrow token that is no arrow. -/
  | unknownArrow (text : String)
  /-- An interface token that is no interface symbol. -/
  | badInterface (text : String)
deriving Repr, DecidableEq, Inhabited

abbrev Reader (α β : Type) := EStateM Failure (State α) β

namespace Reader

variable {α : Type} (input : Input)

def current : Reader α Token := do
  return input.token (← get).index

/-- Take the current token; the end of input is never passed. -/
def advance : Reader α Token := do
  let t ← current input
  if t.kind != .endOfInput then
    modify fun s => { s with index := s.index + 1 }
  return t

/-- The kind of the current token. -/
def kind : Reader α TokenKind := do
  return (← current input).kind

def failAt {β : Type} (message : String) (t : Token) : Reader α β :=
  throw (.syntaxError (input.errorAt message t))

/-- Take a token of a kind, or fail at the current one. -/
def expect (wanted : TokenKind) (message : String) : Reader α Token := do
  let t ← current input
  if t.kind != wanted then failAt input message t
  else advance input

/-- Take a token of a kind, or fail with both kinds named. -/
def expectKind (wanted : TokenKind) : Reader α Token := do
  let t ← current input
  expect input wanted s!"Expected {wanted.describe}, got {t.kind.describe}"

/-- Take tokens as long as their kind passes. -/
def takeRun (passes : TokenKind → Bool) : Reader α (List Token) := do
  let s ← get
  let ts := input.run passes s.index
  set { s with index := s.index + ts.length }
  return ts

def skipNewlines : Reader α Unit := do
  let _ ← takeRun input (· == .newline)

/-- Record a problem at a token and go on. -/
def warn (message : String) (t : Token) : Reader α Unit :=
  modify fun s =>
    let problem := { message, line := t.position.line, column := t.position.column }
    { s with diagnostics := s.diagnostics ++ [problem] }

/-- The texts of tokens, joined by single spaces, without white space at the ends. -/
def joined (ts : List Token) : String :=
  String.ofList (Text.trim (" ".intercalate (ts.map (·.text))).toList)

/-- Take the tokens up to one of the given kinds as a text. -/
def collect (stops : List TokenKind) : Reader α String := do
  return joined (← takeRun input fun k => !stops.contains k)

/-- An optional colon, and the label from there to the end of the line. -/
def trailingLabel : Reader α (Option String) := do
  if (← kind input) != .colon then return none
  let _ ← advance input
  return some (← collect input [.newline, .rightBrace])

/-- Drop a statement that starts with nothing known, up to the end of its line. -/
def skipLine : Reader α Unit := do
  let t ← current input
  warn s!"Unexpected {t.kind.describe} {Text.quoted t.text}, skipping line" t
  let _ ← advance input
  let _ ← takeRun input fun k => k != .newline && k != .rightBrace

end Reader

end ComponentDiagram.Grammar
