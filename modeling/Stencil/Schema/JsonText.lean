import Stencil.Schema.Index

/-! # The JSON text of an index

    An index as a JSON object with the members `models` and `enums`: a model is
    an object from field names to written types, an enum an object of its name
    and the array of its values.  Order is order of declaration.

    There are two layouts: compact, without any blanks, and indented, with one
    member or item a line and two spaces for each level. -/

namespace Stencil.Schema.JsonText

/-! ## Strings -/

/-- A hexadecimal digit, small letters above nine. -/
def hexDigit (n : Nat) : Char :=
  if n < 10 then Char.ofNat (48 + n) else Char.ofNat (87 + n)

/-- A character inside a JSON string: quotes, backslashes and control characters
    are escaped, with a short form where there is one. -/
def escape (c : Char) : List Char :=
  if c = '"' then ['\\', '"']
  else if c = '\\' then ['\\', '\\']
  else if c = '\n' then ['\\', 'n']
  else if c = '\r' then ['\\', 'r']
  else if c = '\t' then ['\\', 't']
  else if c = '\x08' then ['\\', 'b']
  else if c = '\x0c' then ['\\', 'f']
  else if c.toNat < 32 then
    ['\\', 'u', '0', '0', hexDigit (c.toNat / 16), hexDigit (c.toNat % 16)]
  else [c]

/-- A JSON string. -/
def quote (s : String) : String :=
  "\"" ++ String.ofList (s.toList.flatMap escape) ++ "\""

/-! ## Layouts -/

/-- How the parts of an object or array are laid out. -/
inductive Layout where
  | compact
  /-- One part a line, inside `level` enclosing objects and arrays. -/
  | indented (level : Nat)
deriving DecidableEq, Repr

namespace Layout

/-- The layout of the parts of a part. -/
def deeper : Layout → Layout
  | .compact => .compact
  | .indented level => .indented (level + 1)

/-- A line break with indentation, or nothing. -/
def lineBreak : Layout → String
  | .compact => ""
  | .indented level => String.ofList ('\n' :: List.replicate (2 * level) ' ')

/-- What stands after the name of a member. -/
def colon : Layout → String
  | .compact => ":"
  | .indented _ => ": "

end Layout

/-- Parts between two brackets, separated by commas; no parts, no breaks. -/
def enclose (layout : Layout) (opening closing : String) (parts : List String) : String :=
  if parts.isEmpty then opening ++ closing
  else
    opening ++ layout.deeper.lineBreak
      ++ ("," ++ layout.deeper.lineBreak).intercalate parts
      ++ layout.lineBreak ++ closing

/-- An object of members whose values are written already. -/
def object (layout : Layout) (members : List (String × String)) : String :=
  enclose layout "\x7b" "\x7d" (members.map fun m => quote m.1 ++ layout.colon ++ m.2)

/-- An array of items that are written already. -/
def array (layout : Layout) (items : List String) : String :=
  enclose layout "[" "]" items

/-! ## Indexes -/

/-- A model: its fields with their written types. -/
def model (layout : Layout) (m : Model) : String :=
  object layout (m.toList.map fun pair => (pair.1, quote pair.2))

/-- An enum: its name and its values. -/
def enum (layout : Layout) (e : Enum) : String :=
  object layout
    [("name", quote e.name), ("values", array layout.deeper (e.values.map quote))]

/-- An index: its models and its enums. -/
def index (layout : Layout) (i : Index) : String :=
  object layout
    [("models", object layout.deeper
        (i.models.toList.map fun pair => (pair.1, model layout.deeper.deeper pair.2))),
      ("enums", object layout.deeper
        (i.enums.toList.map fun pair => (pair.1, enum layout.deeper.deeper pair.2)))]

end Stencil.Schema.JsonText

namespace Stencil.Schema.Index

/-- The JSON text without blanks. -/
def compactJson (i : Index) : String :=
  JsonText.index .compact i

/-- The JSON text with one member or item a line. -/
def indentedJson (i : Index) : String :=
  JsonText.index (.indented 0) i

end Stencil.Schema.Index
