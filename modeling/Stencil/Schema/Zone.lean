/-! # Zones of schema text

    Schema text has string literals (closed by a quote, a backslash taking the
    next character along) and line comments (from `//` to the end of the line).
    One left-to-right pass assigns a zone to the place before each character;
    whatever is said elsewhere about braces and brackets concerns code alone. -/

namespace Stencil.Schema

/-- Where the next character stands. -/
inductive Zone where
  /-- Ordinary text. -/
  | code
  /-- Ordinary text, after a slash that opens a comment if another one follows. -/
  | slash
  /-- Inside a string literal. -/
  | literal
  /-- Inside a string literal, after a backslash. -/
  | escape
  /-- Inside a line comment. -/
  | comment
deriving DecidableEq, Repr

namespace Zone

/-- The zone after a character. -/
def next : Zone → Char → Zone
  | .literal, c => if c = '"' then .code else if c = '\\' then .escape else .literal
  | .escape, _ => .literal
  | .comment, c => if c = '\n' then .code else .comment
  | .slash, c => if c = '"' then .literal else if c = '/' then .comment else .code
  | .code, c => if c = '"' then .literal else if c = '/' then .slash else .code

/-- Whether the next character counts as code. -/
def isCode : Zone → Bool
  | .code | .slash => true
  | .literal | .escape | .comment => false

end Zone

end Stencil.Schema
