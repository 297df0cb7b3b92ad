import ComponentDiagram.Source.Scan

/-! A cursor over source text that reads runs of characters one call at a time and gathers the
tokens cut so far. -/
namespace ComponentDiagram.Source

structure Cursor where
  text : List Char
  keepBlanks : Bool := false
  offset : Nat := 0
  position : Position := {}
  tokens : List Token := []
deriving Repr, DecidableEq, Inhabited

namespace Cursor

/-- The text that is still to be read. -/
def rest (cursor : Cursor) : List Char := cursor.text.drop cursor.offset

def current? (cursor : Cursor) : Option Char := cursor.rest.head?

/-- The character some places after the current one. -/
def peek? (cursor : Cursor) (distance : Nat) : Option Char :=
  cursor.text[cursor.offset + distance]?

/-- Move forward, at most to the end of the text. -/
def advance (cursor : Cursor) (count : Nat) : Cursor :=
  let passed := cursor.rest.take count
  { cursor with
    offset := cursor.offset + passed.length
    position := cursor.position.after passed }

/-- Read the run that a rule finds at the front of the rest. -/
def read (run : List Char → List Char) (cursor : Cursor) : String × Cursor :=
  let text := run cursor.rest
  (String.ofList text, cursor.advance text.length)

def readBlanks : Cursor → String × Cursor := read blankRun

def readWord : Cursor → String × Cursor := read wordRun

def readNumber : Cursor → String × Cursor := read numberRun

/-- The connector at the cursor, which stays where it is. -/
def connector? (cursor : Cursor) : Option (TokenKind × List Char) :=
  Source.connector? cursor.rest

/-- Cut all of the rest into tokens and add them to the ones gathered before. -/
def tokenize (cursor : Cursor) : Cursor :=
  let found := scan cursor.keepBlanks cursor.position 0 cursor.rest
  { cursor.advance cursor.rest.length with tokens := cursor.tokens ++ found }

end Cursor

end ComponentDiagram.Source
