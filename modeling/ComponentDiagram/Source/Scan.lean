import ComponentDiagram.Text.Character
import ComponentDiagram.Source.InterfaceSymbol
import ComponentDiagram.Source.Token

/-! Cutting source text into tokens. Every character belongs to exactly one token: what starts no
other token is a token of its own, so no text is refused. -/
namespace ComponentDiagram.Source

/-- Space, tab and carriage return; line feeds are tokens of their own. -/
def isBlank (c : Char) : Bool := c == ' ' || c == '\t' || c == '\r'

/-- A dash before one of these starts a connector and ends an identifier. -/
def startsConnectorTail : List Char → Bool
  | c :: _ => c == '>' || c == '(' || c == ')'
  | [] => false

/-- The blanks at the front. -/
def blankRun (cs : List Char) : List Char := cs.takeWhile isBlank

/-- The identifier characters at the front: letters and numerals of any script, `_`, `.`, and
dashes that start no connector. -/
def wordRun : List Char → List Char
  | [] => []
  | c :: rest =>
    if Text.isAlphanumeric c || c == '_' || c == '.' || (c == '-' && !startsConnectorTail rest)
    then c :: wordRun rest
    else []

/-- An optional minus sign and the ASCII digits at the front. -/
def numberRun : List Char → List Char
  | '-' :: rest => '-' :: rest.takeWhile Char.isDigit
  | cs => cs.takeWhile Char.isDigit

/-- The delimiters, each a token of one character. -/
def delimiter? : Char → Option TokenKind
  | '[' => some .leftBracket
  | ']' => some .rightBracket
  | '\x7b' => some .leftBrace
  | '\x7d' => some .rightBrace
  | '@' => some .atSign
  | ',' => some .comma
  | ':' => some .colon
  | _ => none

def delegateArrow : List Char := "->delegate->".toList

/-- The connector at the front, the longest spelling first. -/
def connector? (cs : List Char) : Option (TokenKind × List Char) :=
  if delegateArrow.isPrefixOf cs then some (.delegateArrow, delegateArrow)
  else if ['-', '-', '>'].isPrefixOf cs then some (.arrow, ['-', '-', '>'])
  else if ['-', '>'].isPrefixOf cs then some (.arrow, ['-', '>'])
  else (InterfaceSymbol.match? cs).map (.interfaceConnector, ·)

/-- Keywords and side names are identifiers with a kind of their own. -/
def wordKind (word : List Char) : TokenKind :=
  if word = "port".toList then .portWord
  else if word = "on".toList then .onWord
  else if word = "with".toList then .withWord
  else if word = "left".toList || word = "right".toList || word = "top".toList ||
      word = "bottom".toList then .side
  else .identifier

/-- A digit starts a number, and so does a minus sign before one. -/
def startsNumber : List Char → Bool
  | '-' :: d :: _ => d.isDigit
  | c :: _ => c.isDigit
  | [] => false

/-- Kind and text of the token at the front of `c :: rest`; the text is never empty. -/
def lexeme (c : Char) (rest : List Char) : TokenKind × List Char :=
  let cs := c :: rest
  if isBlank c then (.blank, blankRun cs)
  else if c = '\n' then (.newline, [c])
  else match delimiter? c with
    | some kind => (kind, [c])
    | none =>
      match connector? cs with
      | some found => found
      | none =>
        if Text.isLetter c || c == '_' || c == '.' then (wordKind (wordRun cs), wordRun cs)
        else if startsNumber cs then (.number, numberRun cs)
        else (.other, [c])

/-- The tokens of a text whose first `skip` characters belong to a token already cut, blanks only if
they are kept. -/
def scan (keepBlanks : Bool) (p : Position) : Nat → List Char → List Token
  | _, [] => [⟨.endOfInput, "", p⟩]
  | skip + 1, c :: rest => scan keepBlanks (p.step c) skip rest
  | 0, c :: rest =>
    let (kind, text) := lexeme c rest
    let further := scan keepBlanks (p.step c) (text.length - 1) rest
    if !keepBlanks && kind == .blank then further
    else ⟨kind, String.ofList text, p⟩ :: further

/-- The tokens of a text, ended by one at the end of input, blanks only if they are kept. -/
def tokens (text : String) (keepBlanks : Bool) : List Token :=
  scan keepBlanks ⟨1, 1⟩ 0 text.toList

end ComponentDiagram.Source
