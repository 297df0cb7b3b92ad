import ComponentDiagram.Text.Quoted

/-! Tokens of diagram source, and where they stand in it. -/
namespace ComponentDiagram

/-- A place in a text, counted from one in lines and code points. -/
structure Position where
  line : Nat := 1
  column : Nat := 1
deriving Repr, DecidableEq, Inhabited

/-- The place after one more character. -/
def Position.step (p : Position) (c : Char) : Position :=
  if c = '\n' then ⟨p.line + 1, 1⟩ else ⟨p.line, p.column + 1⟩

/-- The place after a stretch of text. -/
def Position.after (p : Position) (cs : List Char) : Position :=
  cs.foldl Position.step p

inductive TokenKind
  | leftBracket
  | rightBracket
  | leftBrace
  | rightBrace
  | atSign
  | comma
  | colon
  | arrow
  | delegateArrow
  | interfaceConnector
  | portWord
  | onWord
  | withWord
  | side
  | identifier
  | number
  | other
  | newline
  | blank
  | endOfInput
deriving Repr, DecidableEq, Inhabited

namespace TokenKind

/-- The name under which token listings show the kind. -/
def name : TokenKind → String
  | leftBracket => "LBRACKET"
  | rightBracket => "RBRACKET"
  | leftBrace => "LBRACE"
  | rightBrace => "RBRACE"
  | atSign => "AT"
  | comma => "COMMA"
  | colon => "COLON"
  | arrow => "ARROW"
  | delegateArrow => "DELEGATE_ARROW"
  | interfaceConnector => "INTERFACE_CONNECTOR"
  | portWord => "PORT"
  | onWord => "ON"
  | withWord => "WITH"
  | side => "SIDE"
  | identifier => "IDENTIFIER"
  | number => "NUMBER"
  | other => "STRING"
  | newline => "NEWLINE"
  | blank => "WHITESPACE"
  | endOfInput => "EOF"

def all : List TokenKind :=
  [leftBracket, rightBracket, leftBrace, rightBrace, atSign, comma, colon, arrow, delegateArrow,
    interfaceConnector, portWord, onWord, withWord, side, identifier, number, other, newline, blank,
    endOfInput]

def ofName? (text : String) : Option TokenKind := all.find? (·.name == text)

/-- The words for the kind in an error message. -/
def describe : TokenKind → String
  | leftBracket => "'['"
  | rightBracket => "']'"
  | leftBrace => "'\x7b'"
  | rightBrace => "'\x7d'"
  | atSign => "'@'"
  | comma => "','"
  | colon => "':'"
  | arrow => "arrow"
  | delegateArrow => "delegate arrow"
  | interfaceConnector => "interface connector"
  | portWord => "'port'"
  | onWord => "'on'"
  | withWord => "'with'"
  | side => "side"
  | identifier => "identifier"
  | number => "number"
  | other => "text"
  | newline => "end of line"
  | blank => "whitespace"
  | endOfInput => "end of input"

/-- Arrows and interface symbols join the two ends of an edge. -/
def isConnector : TokenKind → Bool
  | arrow | delegateArrow | interfaceConnector => true
  | _ => false

end TokenKind

structure Token where
  kind : TokenKind
  text : String
  position : Position
deriving Repr, DecidableEq, Inhabited

/-- One line that shows a token with its text quoted. -/
def Token.display (token : Token) : String :=
  s!"Token({token.kind.name}, {Text.quoted token.text}, " ++
    s!"{token.position.line}:{token.position.column})"

end ComponentDiagram
