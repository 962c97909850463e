import Stencil.Settings.Toml.Moment
import Stencil.Settings.Toml.Strings
import Stencil.Settings.Toml.Tree

/-! # Documents of TOML

    A document is a sequence of lines: headers, keys with their values, comments,
    nothing.  Arrays and inline tables are nested less than eighty deep, and a
    key has less than eighty parts. -/

namespace Stencil.Settings.Toml

/-! ## Keys -/

/-- Whether a character may stand in a key without quotes. -/
def isBare (c : Char) : Bool :=
  c.isAlphanum || c = '_' || c = '-'

/-- One part of a key. -/
def keyPart : Reader String
  | '"' :: rest => lineString ('"' :: rest)
  | '\'' :: rest => lineString ('\'' :: rest)
  | cs =>
      let part := cs.takeWhile isBare
      if part.isEmpty then none else some (String.ofList part, cs.dropWhile isBare)

/-- The parts of a key, separated by dots, with blanks around each of them. -/
def keyParts (cs : List Char) : Option (List String × List Char) :=
  match keyPart (skipGap cs) with
  | none => none
  | some (part, rest) =>
      match skipGap rest with
      | '.' :: next =>
          if next.length < cs.length then
            (keyParts next).map fun (parts, rest) => (part :: parts, rest)
          else none
      | rest => some ([part], rest)
termination_by cs.length

/-- A key. -/
def key : Reader (List String) := fun cs => do
  let (parts, rest) ← keyParts cs
  guard (parts.length < 80)
  return (parts, rest)

/-! ## Values -/

/-- A number, a truth value, a date or a time. -/
def scalar (cs : List Char) : Option (Value × List Char) :=
  match cs with
  | 't' :: 'r' :: 'u' :: 'e' :: rest => some (.flag true, rest)
  | 'f' :: 'a' :: 'l' :: 's' :: 'e' :: rest => some (.flag false, rest)
  | cs =>
      match moment? cs with
      | some rest => some (.table [], rest)
      | none =>
          match (float cs).or (integer cs) with
          | some (written, rest) => some (.number written, rest)
          | none => none

/-- The items of an array, up to its closing bracket.  A comma may follow the
    last one. -/
def arrayRest (item : Reader Value) (cs : List Char) : Option (List Value × List Char) :=
  match skipLines? false cs with
  | none => none
  | some (']' :: rest) => some ([], rest)
  | some start =>
      match item start with
      | none => none
      | some (v, rest) =>
          match skipLines? false rest with
          | some (']' :: rest) => some ([v], rest)
          | some (',' :: next) =>
              if next.length < cs.length then
                (arrayRest item next).map fun (vs, rest) => (v :: vs, rest)
              else none
          | _ => none
termination_by cs.length

/-- A key, an equals sign, and a value, with blanks between them. -/
def keyValue (item : Reader Value) : Reader (List String × Value) := fun cs => do
  let (parts, rest) ← key cs
  match rest with
  | '=' :: rest => do
      let (v, rest) ← item (skipGap rest)
      return ((parts, v), rest)
  | _ => none

/-- The entries of an inline table, up to its closing brace. -/
def inlineRest (item : Reader Value) (entries : Entries) (cs : List Char) :
    Option (Entries × List Char) :=
  match keyValue item cs with
  | none => none
  | some ((parts, v), rest) =>
      match entries.place v parts with
      | none => none
      | some entries =>
          match skipGap rest with
          | '\x7d' :: rest => some (entries, rest)
          | ',' :: next =>
              if next.length < cs.length then inlineRest item entries next else none
          | _ => none
termination_by cs.length

/-- A value, inside of which arrays and inline tables may be nested up to a
    depth. -/
def value : Nat → Reader Value
  | _, '"' :: rest => (string ('"' :: rest)).map fun (s, rest) => (.text s, rest)
  | _, '\'' :: rest => (string ('\'' :: rest)).map fun (s, rest) => (.text s, rest)
  | depth + 1, '[' :: rest =>
      (arrayRest (value depth) rest).map fun (items, rest) => (.list items, rest)
  | depth + 1, '\x7b' :: rest =>
      match skipGap rest with
      | '\x7d' :: rest => some (.table [], rest)
      | start =>
          (inlineRest (value depth) [] start).map fun (entries, rest) =>
            (.table (Entries.entryValues entries), rest)
  | _, cs => scalar cs

/-! ## Lines -/

/-- What is known in the middle of a document: the root table, and the path of
    the header that keys now belong to. -/
structure Reading where
  root : Entries
  path : List String

namespace Reading

/-- What is known before the first line. -/
def start : Reading := ⟨[], []⟩

/-- Opens the table of a header, in a way that depends on the kind of header. -/
def openAt (reading : Reading) (openLast : String → Entries → Option Entries)
    (path : List String) : Option Reading := do
  let last ← path.getLast?
  let root ← Entries.within (openLast last) path.dropLast reading.root
  return ⟨root, path⟩

/-- Reads a header or a key with its value, up to the rest of the line. -/
def line (reading : Reading) : Reader Reading
  | '[' :: '[' :: rest => do
      let (path, rest) ← key rest
      match rest with
      | ']' :: ']' :: rest => return (← reading.openAt Entries.openArrayTable path, rest)
      | _ => none
  | '[' :: rest => do
      let (path, rest) ← key rest
      match rest with
      | ']' :: rest => return (← reading.openAt Entries.openTable path, rest)
      | _ => none
  | cs => do
      let ((parts, v), rest) ← keyValue (value 79) cs
      let root ← Entries.within (Entries.place v parts) reading.path reading.root
      return ({ reading with root }, rest)

/-- Reads the lines of a document. -/
def lines (reading : Reading) (cs : List Char) : Option Reading :=
  match skipGap cs with
  | [] => some reading
  | c :: rest =>
      if c = '\n' || c = '\r' || c = '#' then
        match lineEnd? (c :: rest) with
        | some next => if next.length < cs.length then lines reading next else none
        | none => none
      else
        match line reading (c :: rest) with
        | none => none
        | some (reading, rest) =>
            match lineEnd? rest with
            | some next => if next.length < cs.length then lines reading next else none
            | none => none
termination_by cs.length

end Reading

/-- A text without the byte order mark at its front. -/
def dropMark : List Char → List Char
  | '\uFEFF' :: rest => rest
  | cs => cs

/-- The root table of a document. -/
def read (text : String) : Option (List (String × Value)) :=
  (Reading.start.lines (dropMark text.toList)).map fun reading =>
    Entries.entryValues reading.root

end Stencil.Settings.Toml
