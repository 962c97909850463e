import Stencil.Settings.Toml.Number

/-! # Dates and times of TOML

    A date, a time, or both, perhaps with an offset.  No setting is a date or a
    time, so reading one only finds out where it ends. -/

namespace Stencil.Settings.Toml

/-- The number that exactly `count` digits at the front of a text write, if it
    lies between the bounds, and what follows. -/
def fixedNumber (count low high : Nat) : Reader Nat := fun cs => do
  let digits := cs.take count
  guard (digits.length = count && digits.all Char.isDigit)
  let n := numberIn 10 digits
  guard (low ≤ n && n ≤ high)
  return (n, cs.drop count)

/-- What follows a character at the front of a text. -/
def after? (c : Char) : List Char → Option (List Char)
  | [] => none
  | d :: rest => if d = c then some rest else none

/-- The number of days of a month. -/
def daysOf (year month : Nat) : Nat :=
  if month = 2 then
    if year % 4 = 0 && (year % 100 != 0 || year % 400 = 0) then 29 else 28
  else if [4, 6, 9, 11].contains month then 30
  else 31

/-- What follows a date. -/
def date? (cs : List Char) : Option (List Char) := do
  let (year, rest) ← fixedNumber 4 0 9999 cs
  let (month, rest) ← fixedNumber 2 1 12 (← after? '-' rest)
  let (_, rest) ← fixedNumber 2 1 (daysOf year month) (← after? '-' rest)
  return rest

/-- What follows a time; a minute may have a leap second. -/
def time? (cs : List Char) : Option (List Char) := do
  let (_, rest) ← fixedNumber 2 0 23 cs
  let (_, rest) ← fixedNumber 2 0 59 (← after? ':' rest)
  let (_, rest) ← fixedNumber 2 0 60 (← after? ':' rest)
  match rest with
  | '.' :: c :: rest =>
      if c.isDigit then return rest.dropWhile Char.isDigit else return '.' :: c :: rest
  | rest => return rest

/-- What follows an offset, if there is one. -/
def offset? : List Char → Option (List Char)
  | 'Z' :: rest => some rest
  | 'z' :: rest => some rest
  | c :: rest =>
      if c = '+' || c = '-' then do
        let (_, rest) ← fixedNumber 2 0 23 rest
        let (_, rest) ← fixedNumber 2 0 59 (← after? ':' rest)
        return rest
      else some (c :: rest)
  | [] => some []

/-- What follows the time and the offset after a date, if there is a time. -/
def timeOfDay? : List Char → Option (List Char)
  | c :: rest =>
      if c = 'T' || c = 't' || c = ' ' then
        match time? rest with
        | some rest => offset? rest
        | none => some (c :: rest)
      else some (c :: rest)
  | [] => some []

/-- What follows a date, a time, or both. -/
def moment? (cs : List Char) : Option (List Char) :=
  match date? cs with
  | some rest => timeOfDay? rest
  | none => time? cs

end Stencil.Settings.Toml
