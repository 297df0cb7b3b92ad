/-! Dates and times of TOML documents. -/
namespace ComponentDiagram.Toml

structure Date where
  year : Nat
  month : Nat
  day : Nat
deriving Repr, DecidableEq, Inhabited

structure Time where
  hour : Nat
  minute : Nat
  second : Nat
  microsecond : Nat := 0
deriving Repr, DecidableEq, Inhabited

/-- Minutes east of Greenwich. -/
abbrev Offset := Int

/-- Every fourth year is a leap year, but of the full centuries only every fourth. -/
def isLeapYear (year : Nat) : Bool :=
  year % 4 == 0 && (year % 100 != 0 || year % 400 == 0)

def daysInMonth (year month : Nat) : Nat :=
  if month = 2 then (if isLeapYear year then 29 else 28)
  else if month = 4 || month = 6 || month = 9 || month = 11 then 30
  else 31

/-- A date of the calendar, which starts with the year one. -/
def Date.valid (d : Date) : Bool :=
  1 ≤ d.year && 1 ≤ d.month && d.month ≤ 12 && 1 ≤ d.day && d.day ≤ daysInMonth d.year d.month

def Date.display (d : Date) : String :=
  s!"datetime.date({d.year}, {d.month}, {d.day})"

/-- Hour and minute, and then only what is not zero to the end. -/
def Time.fields (t : Time) : List Nat :=
  [t.hour, t.minute] ++
    if t.microsecond != 0 then [t.second, t.microsecond]
    else if t.second != 0 then [t.second]
    else []

def commaList (numbers : List Nat) : String := ", ".intercalate (numbers.map toString)

def Time.display (t : Time) : String := s!"datetime.time({commaList t.fields})"

/-- Days are counted down to stay behind the offset, so that the seconds are never negative. -/
def displayOffset (minutes : Offset) : String :=
  if minutes = 0 then "datetime.timezone.utc"
  else
    let seconds := minutes * 60
    let inside :=
      if seconds < 0 then s!"days=-1, seconds={seconds + 86400}" else s!"seconds={seconds}"
    s!"datetime.timezone(datetime.timedelta({inside}))"

def displayDateTime (d : Date) (t : Time) (offset : Option Offset) : String :=
  let numbers := commaList ([d.year, d.month, d.day] ++ t.fields)
  let zone := match offset with
    | some minutes => s!", tzinfo={displayOffset minutes}"
    | none => ""
  s!"datetime.datetime({numbers}{zone})"

/-! Reading them at the front of a text. -/

/-- A number of a fixed count of digits. -/
def fixedDigits? : Nat → List Char → Option (Nat × List Char)
  | 0, cs => some (0, cs)
  | left + 1, c :: rest =>
    if c.isDigit then
      (fixedDigits? left rest).map fun (n, after) => ((c.toNat - 48) * Nat.pow 10 left + n, after)
    else none
  | _ + 1, [] => none

/-- Two digits that are at most a limit. -/
def twoDigits? (limit : Nat) (cs : List Char) : Option (Nat × List Char) :=
  match fixedDigits? 2 cs with
  | some (n, rest) => if n ≤ limit then some (n, rest) else none
  | none => none

def expectChar? (c : Char) : List Char → Option (List Char)
  | d :: rest => if c = d then some rest else none
  | [] => none

/-- An optional fraction of a second, cut after six digits. -/
def fraction (cs : List Char) : Nat × List Char :=
  match cs with
  | '.' :: d :: rest =>
    if d.isDigit then
      let digits := (d :: rest).takeWhile Char.isDigit
      let six := (digits ++ List.replicate 6 '0').take 6
      (six.foldl (fun n c => 10 * n + (c.toNat - 48)) 0, (d :: rest).dropWhile Char.isDigit)
    else (0, cs)
  | _ => (0, cs)

/-- `hh:mm:ss` with an optional fraction. -/
def time? (cs : List Char) : Option (Time × List Char) := do
  let (hour, rest) ← twoDigits? 23 cs
  let (minute, rest) ← twoDigits? 59 (← expectChar? ':' rest)
  let (second, rest) ← twoDigits? 59 (← expectChar? ':' rest)
  let (microsecond, rest) := fraction rest
  return (⟨hour, minute, second, microsecond⟩, rest)

/-- `yyyy-mm-dd`; a month or a day that no calendar has is no date at all. -/
def date? (cs : List Char) : Option (Date × List Char) := do
  let (year, rest) ← fixedDigits? 4 cs
  let (month, rest) ← twoDigits? 12 (← expectChar? '-' rest)
  let (day, rest) ← twoDigits? 31 (← expectChar? '-' rest)
  if month = 0 || day = 0 then none else return (⟨year, month, day⟩, rest)

/-- A time after a date, parted from it by `T` or one space. -/
def timeAfterDate? : List Char → Option (Time × List Char)
  | c :: rest => if c = 'T' || c = 't' || c = ' ' then time? rest else none
  | [] => none

/-- An optional `Z` or `±hh:mm`. -/
def offset (cs : List Char) : Option Offset × List Char :=
  match cs with
  | c :: rest =>
    if c = 'Z' || c = 'z' then (some 0, rest)
    else if c = '+' || c = '-' then
      match twoDigits? 23 rest with
      | some (hour, ':' :: rest) =>
        match twoDigits? 59 rest with
        | some (minute, rest) =>
          let minutes : Int := hour * 60 + minute
          (some (if c = '-' then -minutes else minutes), rest)
        | none => (none, cs)
      | _ => (none, cs)
    else (none, cs)
  | [] => (none, [])

end ComponentDiagram.Toml
