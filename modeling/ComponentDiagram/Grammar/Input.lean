import ComponentDiagram.Source.Excerpt
import ComponentDiagram.Source.Scan

/-! What a reader of diagrams reads: tokens without blanks, always ended by the end of input, and
the text that its errors quote. -/
namespace ComponentDiagram.Grammar

structure Input where
  tokens : Array Token
  file : Option Path := none
  /-- The source text, for the lines around an error. -/
  text : Option String := none
  /-- Components opened inside this many others are dropped; without a limit none is. -/
  depthLimit : Option Nat := some 50
deriving Repr, Inhabited

namespace Input

/-- Where the end of input stands if the tokens do not say it. -/
def endOf (tokens : List Token) : Token :=
  match tokens.getLast? with
  | some last =>
    ⟨.endOfInput, "", ⟨last.position.line, last.position.column + last.text.length⟩⟩
  | none => ⟨.endOfInput, "", ⟨1, 1⟩⟩

/-- Drop the blanks, and end the tokens if they are not ended. -/
def closed (tokens : List Token) : List Token :=
  let kept := tokens.filter fun token => token.kind != .blank
  if (kept.getLast?.map (·.kind)) = some .endOfInput then kept else kept ++ [endOf kept]

def ofTokens (tokens : List Token) (file : Option Path) (text : Option String) : Input :=
  { tokens := (closed tokens).toArray, file, text }

def ofText (text : String) (file : Option Path) : Input :=
  ofTokens (Source.tokens text false) file (some text)

/-- The token at an index; beyond the last one it is the end of input. -/
def token (input : Input) (index : Nat) : Token :=
  match input.tokens[index]? with
  | some t => t
  | none => input.tokens.back?.getD (endOf [])

/-- The tokens from an index on as long as their kind passes, at most `left` of them. -/
def runTo (input : Input) (passes : TokenKind → Bool) : Nat → Nat → List Token
  | 0, _ => []
  | left + 1, index =>
    let t := input.token index
    if passes t.kind then t :: input.runTo passes left (index + 1) else []

/-- The tokens from an index on as long as their kind passes; the end of input never does. -/
def run (input : Input) (passes : TokenKind → Bool) (index : Nat) : List Token :=
  input.runTo (fun kind => kind != .endOfInput && passes kind) (input.tokens.size - index) index

/-- The error of a token, with the lines around it. -/
def errorAt (input : Input) (message : String) (token : Token) : LocatedError :=
  let line : Int := token.position.line
  let snippet := input.text.bind fun text => if text = "" then none else some (excerpt text line 2)
  ⟨message, some ⟨line, token.position.column, input.file, snippet⟩⟩

end Input

end ComponentDiagram.Grammar
