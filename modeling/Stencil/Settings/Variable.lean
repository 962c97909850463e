import Stencil.Settings.Quoted
import Stencil.Settings.Value
import Stencil.Text.Blank

/-! # Settings from variables

    Environment variables whose names start with `MODGEN_`, in any case, hold
    settings.  The rest of the name, in small letters, is the path to the
    setting, split at double underscores and at dots; a name with an empty part
    is no setting.

    The text of a variable is a truth value, a number, a quoted text, a single
    character in single quotes, a list in brackets or a table in braces, with
    ASCII blanks around it; other text without brackets and commas loses the white
    space around it, of any kind; and what is none of these is taken as it
    stands. -/

namespace Stencil.Settings.Variable

open Stencil.Text (isBlank trimSpace)

/-! ## Plain values -/

/-- Whether a text consists of decimal digits, one at least. -/
def isDigits (cs : List Char) : Bool := !cs.isEmpty && cs.all Char.isDigit

/-- A text without the sign at its front. -/
def unsigned : List Char → List Char
  | '+' :: rest => rest
  | '-' :: rest => rest
  | cs => cs

/-- The number that decimal digits write. -/
def digitsValue (cs : List Char) : Nat :=
  cs.foldl (fun n c => 10 * n + (c.toNat - 48)) 0

/-- Whether a text is a whole number of 64 bits, with or without sign bit. -/
def isWhole (cs : List Char) : Bool :=
  isDigits (unsigned cs) &&
    if cs.head? = some '-' then digitsValue (unsigned cs) ≤ Nat.pow 2 63
    else digitsValue (unsigned cs) < Nat.pow 2 64

/-- Whether a text is an exponent, or nothing. -/
def isExponent : List Char → Bool
  | [] => true
  | c :: rest => (c = 'e' || c = 'E') && isDigits (unsigned rest)

/-- Whether a text is a number with a decimal point: digits before or after the
    point, and perhaps an exponent. -/
def isFraction (cs : List Char) : Bool :=
  let before := (unsigned cs).takeWhile Char.isDigit
  match (unsigned cs).dropWhile Char.isDigit with
  | '.' :: rest =>
      let after := rest.takeWhile Char.isDigit
      !(before ++ after).isEmpty && isExponent (rest.dropWhile Char.isDigit)
  | _ => false

/-- The value of a text without structure. -/
def plainValue (cs : List Char) : Value :=
  if isFraction cs || isWhole cs then .number (String.ofList cs)
  else .text (String.ofList cs)

/-! ## Structured values -/

/-- A text without the blanks at its front. -/
def skipBlanks (cs : List Char) : List Char := cs.dropWhile isBlank

/-- Whether a character may stand in a text without structure. -/
def isUnstructured (c : Char) : Bool :=
  !(c = ',' || c = '[' || c = ']' || c = '\x7b' || c = '\x7d')

/-- Whether a character may stand in a name without quotes. -/
def isBare (c : Char) : Bool :=
  c.isAlphanum || c = '_' || c = '-'

/-- The items of a list or the entries of a table, separated by commas, up to the
    closing bracket.  A comma may follow the last one. -/
def itemsRest {α : Type} (item : Reader α) (closing : Char) (cs : List Char) :
    Option (List α × List Char) :=
  if cs.head? = some closing then some ([], cs.drop 1)
  else
    match item cs with
    | none => none
    | some (a, rest) =>
        match rest with
        | [] => none
        | c :: next =>
            if c = closing then some ([a], next)
            -- an item never gives characters back; the bound says so to the recursion
            else if c = ',' && next.length < cs.length then
              (itemsRest item closing next).map fun (items, rest) => (a :: items, rest)
            else none
termination_by cs.length
decreasing_by simp_all

/-- A name in a table. -/
def entryName : Reader String
  | '"' :: rest => (quotedRest rest).map fun (s, rest) => (String.ofList s, rest)
  | cs =>
      let name := cs.takeWhile isBare
      if name.isEmpty then none else some (String.ofList name, cs.dropWhile isBare)

/-- An entry of a table: a name, an equals sign, and a value. -/
def entry (item : Reader Value) : Reader (String × Value) := fun cs => do
  let (name, rest) ← entryName (skipBlanks cs)
  match skipBlanks rest with
  | '=' :: rest => do
      let (v, rest) ← item rest
      return ((name, v), rest)
  | _ => none

/-- A value without the blanks around it, inside of which lists and tables may be
    nested up to a depth. -/
def bareValue : Nat → Reader Value
  | depth, cs =>
      match cs with
      | 't' :: 'r' :: 'u' :: 'e' :: rest => some (.flag true, rest)
      | 'f' :: 'a' :: 'l' :: 's' :: 'e' :: rest => some (.flag false, rest)
      | '"' :: rest => (quotedRest rest).map fun (s, rest) => (.text (String.ofList s), rest)
      | '\'' :: c :: '\'' :: rest => some (.text (String.singleton c), rest)
      | '\'' :: _ => none
      | '[' :: rest =>
          match depth with
          | 0 => none
          | depth + 1 =>
              (itemsRest (value depth) ']' rest).map fun (items, rest) => (.list items, rest)
      | '\x7b' :: rest =>
          match depth with
          | 0 => none
          | depth + 1 =>
              (itemsRest (entry (value depth)) '\x7d' rest).map fun (entries, rest) =>
                (.table (entries.foldl (fun t e => putEntry e.1 e.2 t) []), rest)
      | cs =>
          some (plainValue (trimSpace (cs.takeWhile isUnstructured)),
            cs.dropWhile isUnstructured)
where
  /-- A value with the blanks around it. -/
  value (depth : Nat) : Reader Value := fun cs =>
    (bareValue depth (skipBlanks cs)).map fun (v, rest) => (v, skipBlanks rest)

/-- The value of the text of a variable, or the text as it stands if it is no value
    from its beginning to its end.  Nesting cannot be deeper than the text is
    long. -/
def read (text : String) : Value :=
  let cs := text.toList
  match bareValue.value cs.length cs with
  | some (v, []) => v
  | _ => .text text

/-! ## Names -/

/-- What starts the names of variables that hold settings. -/
def namePrefix : List Char := "MODGEN_".toList

/-- The parts of a name between double underscores and dots. -/
def splitName : List Char → List (List Char)
  | [] => [[]]
  | '_' :: '_' :: rest => [] :: splitName rest
  | c :: rest =>
      if c = '.' then [] :: splitName rest
      else
        match splitName rest with
        | [] => [[c]]
        | part :: parts => (c :: part) :: parts

/-- The path to the setting that a variable holds, if it holds one. -/
def path? (name : String) : Option (List String) :=
  let cs := trimSpace name.toList
  let start := cs.take namePrefix.length
  if start.map Char.toUpper = namePrefix then
    let parts := splitName (trimSpace (cs.drop namePrefix.length))
    if parts.any List.isEmpty then none
    else some (parts.map fun part => String.ofList (part.map Char.toLower))
  else none

/-- The table that holds a value at a path. -/
def nest (value : Value) : List String → Value
  | [] => value
  | name :: path => .table [(name, nest value path)]

/-- The layer that variables make, each one laid over those before it. -/
def layer (environment : List (String × String)) : Value :=
  environment.foldl
    (fun below (name, text) =>
      match path? name with
      | some path => below.overlay (nest (read text) path)
      | none => below)
    (.table [])

end Stencil.Settings.Variable
