import ComponentDiagram.Toml.Value

/-! Strings, keys and numbers of TOML documents, read at the front of a text. -/
namespace ComponentDiagram.Toml

/-- Why a document cannot be read. -/
inductive Fault
  | invalid
  /-- A decimal integer of more than 4300 digits. -/
  | integerTooLong
deriving Repr, DecidableEq, Inhabited

def isBlank (c : Char) : Bool := c == ' ' || c == '\t'

def skipBlanks (cs : List Char) : List Char := cs.dropWhile isBlank

/-- Controls other than the tab stand in no comment and no string. -/
def isControl (c : Char) : Bool := (c.toNat < 32 && c != '\t') || c.toNat == 127

/-- The text after an optional comment, which ends before a line feed. -/
def skipComment (cs : List Char) : Except Fault (List Char) :=
  match cs with
  | '#' :: rest =>
    if (rest.takeWhile (· != '\n')).any isControl then .error .invalid
    else .ok (rest.dropWhile (· != '\n'))
  | _ => .ok cs

/-- Skip blanks, line feeds and comments. -/
def skipFillerTo : Nat → List Char → Except Fault (List Char)
  | 0, cs => .ok cs
  | fuel + 1, cs =>
    match cs with
    | '#' :: _ => skipComment cs >>= skipFillerTo fuel
    | c :: rest => if isBlank c || c == '\n' then skipFillerTo fuel rest else .ok cs
    | [] => .ok []

def skipFiller (cs : List Char) : Except Fault (List Char) := skipFillerTo (cs.length + 1) cs

/-! Strings. -/

/-- Text read at the front of another one, and what is left of that. -/
abbrev Reading := Except Fault (List Char × List Char)

def hexDigit? (c : Char) : Option Nat :=
  if c.isDigit then some (c.toNat - 48)
  else if 'a' ≤ c && c ≤ 'f' then some (c.toNat - 87)
  else if 'A' ≤ c && c ≤ 'F' then some (c.toNat - 55)
  else none

/-- A character given by a fixed count of hexadecimal digits. -/
def hexChar (count : Nat) (cs : List Char) : Reading :=
  match (cs.take count).mapM hexDigit? with
  | some digits =>
    let code := digits.foldl (fun n d => 16 * n + d) 0
    if digits.length = count && code.isValidChar then
      .ok ([Char.ofNat code], cs.drop count)
    else .error .invalid
  | none => .error .invalid

/-- What a backslash and the text after it stand for. At the end of a line of a string of several
lines it stands for nothing, and neither does the white space after it. -/
def escape (multiline : Bool) (cs : List Char) : Reading :=
  match cs with
  | 'b' :: rest => .ok (['\x08'], rest)
  | 't' :: rest => .ok (['\t'], rest)
  | 'n' :: rest => .ok (['\n'], rest)
  | 'f' :: rest => .ok (['\x0c'], rest)
  | 'r' :: rest => .ok (['\r'], rest)
  | '\x22' :: rest => .ok (['\x22'], rest)
  | '\\' :: rest => .ok (['\\'], rest)
  | 'u' :: rest => hexChar 4 rest
  | 'U' :: rest => hexChar 8 rest
  | c :: _ =>
    if multiline && (isBlank c || c == '\n') then
      match skipBlanks cs with
      | '\n' :: rest => .ok ([], rest.dropWhile fun d => isBlank d || d == '\n')
      | [] => .ok ([], [])
      | _ => .error .invalid
    else .error .invalid
  | [] => .error .invalid

/-- The rest of a string in double quotes, with what its escapes stand for. -/
def basicTo (multiline : Bool) : Nat → List Char → Reading
  | 0, _ => .error .invalid
  | fuel + 1, cs =>
    match cs with
    | [] => .error .invalid
    | '\\' :: rest => do
      let (text, rest) ← escape multiline rest
      let (more, rest) ← basicTo multiline fuel rest
      return (text ++ more, rest)
    | '\x22' :: rest =>
      if !multiline then .ok ([], rest)
      else if ['\x22', '\x22'].isPrefixOf rest then .ok ([], rest.drop 2)
      else do
        let (more, rest) ← basicTo multiline fuel rest
        return ('\x22' :: more, rest)
    | c :: rest =>
      if isControl c && !(multiline && c == '\n') then .error .invalid
      else do
        let (more, rest) ← basicTo multiline fuel rest
        return (c :: more, rest)

def basic (multiline : Bool) (cs : List Char) : Reading :=
  basicTo multiline (cs.length + 1) cs

/-- The rest of a string in single quotes, on one line. -/
def literal : List Char → Reading
  | [] => .error .invalid
  | c :: rest =>
    if c = '\x27' then .ok ([], rest)
    else if isControl c then .error .invalid
    else do
      let (more, rest) ← literal rest
      return (c :: more, rest)

/-- The rest of a string in three single quotes. -/
def literalLines : List Char → Reading
  | [] => .error .invalid
  | c :: rest =>
    if ['\x27', '\x27', '\x27'].isPrefixOf (c :: rest) then .ok ([], rest.drop 2)
    else if isControl c && c != '\n' then .error .invalid
    else do
      let (more, rest) ← literalLines rest
      return (c :: more, rest)

/-- Up to two more quotes belong to a string that ends with three. -/
def closingQuotes (quote : Char) (text rest : List Char) : List Char × List Char :=
  match rest with
  | c :: after =>
    if c = quote then
      match after with
      | d :: last => if d = quote then (text ++ [quote, quote], last) else (text ++ [quote], after)
      | [] => (text ++ [quote], [])
    else (text, rest)
  | [] => (text, [])

/-- A line feed right after the opening quotes is no part of the string. -/
def skipFirstNewline : List Char → List Char
  | '\n' :: rest => rest
  | cs => cs

def Reading.toString (r : Reading) : Except Fault (String × List Char) :=
  r.map fun (text, rest) => (String.ofList text, rest)

/-- A string of several lines with the quotes that end it. -/
def Reading.closed (quote : Char) (r : Reading) : Reading :=
  r.map fun (text, rest) => closingQuotes quote text rest

/-- A string value, if one starts here. -/
def string? (cs : List Char) : Option (Except Fault (String × List Char)) :=
  match cs with
  | '\x22' :: '\x22' :: '\x22' :: rest =>
    some (Reading.closed '\x22' (basic true (skipFirstNewline rest))).toString
  | '\x22' :: rest => some (Reading.toString (basic false rest))
  | '\x27' :: '\x27' :: '\x27' :: rest =>
    some (Reading.closed '\x27' (literalLines (skipFirstNewline rest))).toString
  | '\x27' :: rest => some (Reading.toString (literal rest))
  | _ => none

/-! Keys. -/

def isBareKeyChar (c : Char) : Bool := c.isAlphanum || c == '-' || c == '_'

/-- One part of a key: bare, or in quotes of either kind. -/
def keyPart (cs : List Char) : Except Fault (String × List Char) :=
  match cs with
  | '\x22' :: rest => Reading.toString (basic false rest)
  | '\x27' :: rest => Reading.toString (literal rest)
  | _ =>
    let text := cs.takeWhile isBareKeyChar
    if text.isEmpty then .error .invalid
    else .ok (String.ofList text, cs.dropWhile isBareKeyChar)

/-- Parts of a key between dots, blanks around the dots allowed. -/
def keyTo : Nat → List Char → Except Fault (List String × List Char)
  | 0, _ => .error .invalid
  | fuel + 1, cs => do
    let (part, rest) ← keyPart cs
    match skipBlanks rest with
    | '.' :: rest =>
      let (parts, rest) ← keyTo fuel (skipBlanks rest)
      return (part :: parts, rest)
    | rest => return ([part], rest)

def key (cs : List Char) : Except Fault (List String × List Char) := keyTo (cs.length + 1) cs

/-! Numbers. -/

/-- More digits of a number; single underscores may stand between them. -/
def moreDigits (isDigit : Char → Bool) : List Char → List Char × List Char
  | [] => ([], [])
  | '_' :: d :: rest =>
    if isDigit d then
      let (digits, after) := moreDigits isDigit rest
      (d :: digits, after)
    else ([], '_' :: d :: rest)
  | d :: rest =>
    if isDigit d then
      let (digits, after) := moreDigits isDigit rest
      (d :: digits, after)
    else ([], d :: rest)

/-- One digit or more. -/
def digits? (isDigit : Char → Bool) : List Char → Option (List Char × List Char)
  | d :: rest =>
    if isDigit d then
      let (digits, after) := moreDigits isDigit rest
      some (d :: digits, after)
    else none
  | [] => none

def valueIn (base : Nat) (digits : List Char) : Nat :=
  digits.foldl (fun n d => base * n + (hexDigit? d).getD 0) 0

def isOctal (c : Char) : Bool := '0' ≤ c && c ≤ '7'

def isBinary (c : Char) : Bool := c == '0' || c == '1'

/-- An unsigned integer to another base. -/
def based? (cs : List Char) : Option (Nat × List Char) :=
  match cs with
  | '0' :: 'x' :: rest =>
    (digits? (fun c => (hexDigit? c).isSome) rest).map fun (ds, after) => (valueIn 16 ds, after)
  | '0' :: 'o' :: rest => (digits? isOctal rest).map fun (ds, after) => (valueIn 8 ds, after)
  | '0' :: 'b' :: rest => (digits? isBinary rest).map fun (ds, after) => (valueIn 2 ds, after)
  | _ => none

def sign (cs : List Char) : Bool × List Char :=
  match cs with
  | '-' :: rest => (true, rest)
  | '+' :: rest => (false, rest)
  | _ => (false, cs)

/-- The digits before the point: a zero alone, or digits that do not start with one. -/
def wholePart? (cs : List Char) : Option (List Char × List Char) :=
  match cs with
  | '0' :: rest => some (['0'], rest)
  | _ => digits? Char.isDigit cs

def fractionPart? (cs : List Char) : Option (List Char × List Char) :=
  match cs with
  | '.' :: rest => digits? Char.isDigit rest
  | _ => none

def exponentPart? (cs : List Char) : Option (Int × List Char) :=
  match cs with
  | c :: rest =>
    if c = 'e' || c = 'E' then
      let (negative, rest) := sign rest
      (digits? Char.isDigit rest).map fun (ds, after) =>
        let size : Int := valueIn 10 ds
        (if negative then -size else size, after)
    else none
  | [] => none

/-- A decimal number, if one starts here; with a fraction or an exponent it is a float. -/
def decimal? (cs : List Char) : Option (Except Fault (Value × List Char)) := do
  let (negative, rest) := sign cs
  let (whole, rest) ← wholePart? rest
  let (fraction, afterFraction) := match fractionPart? rest with
    | some (ds, after) => (some ds, after)
    | none => (none, rest)
  let (exponent, after) := match exponentPart? afterFraction with
    | some (n, after) => (some n, after)
    | none => (none, afterFraction)
  if fraction.isNone && exponent.isNone then
    if 4300 < whole.length then return .error .integerTooLong
    let size : Int := valueIn 10 whole
    return .ok (.integer (if negative then -size else size), after)
  let ds := fraction.getD []
  let x := floatOfDecimal negative (valueIn 10 (whole ++ ds)) (exponent.getD 0 - ds.length)
  return .ok (.float x, after)

/-- `inf` and `nan`, with or without a sign. -/
def special? (cs : List Char) : Option (Value × List Char) :=
  let (negative, rest) := sign cs
  if ['i', 'n', 'f'].isPrefixOf rest then
    some (.float (nearestFloat negative (Nat.pow 2 1024) 1), rest.drop 3)
  else if ['n', 'a', 'n'].isPrefixOf rest then some (.float (0.0 / 0.0), rest.drop 3)
  else none

/-- A date with or without a time, if one starts here. -/
def dateValue? (cs : List Char) : Option (Except Fault (Value × List Char)) := do
  let (date, rest) ← date? cs
  let (value, rest) := match timeAfterDate? rest with
    | some (time, rest) =>
      let (zone, rest) := offset rest
      (Value.dateTime date time zone, rest)
    | none => (Value.date date, rest)
  return if date.valid then .ok (value, rest) else .error .invalid

/-- A date, a time or a number. -/
def plainValue (cs : List Char) : Except Fault (Value × List Char) :=
  match dateValue? cs with
  | some r => r
  | none =>
    match time? cs with
    | some (t, rest) => .ok (.time t, rest)
    | none =>
      match based? cs with
      | some (n, rest) => .ok (.integer n, rest)
      | none =>
        match decimal? cs with
        | some r => r
        | none =>
          match special? cs with
          | some r => .ok r
          | none => .error .invalid

end ComponentDiagram.Toml
