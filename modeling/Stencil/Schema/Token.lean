import Stencil.Schema.Zone
import Stencil.Text.Blank

/-! # Tokens of a block body

    Tokens are separated by blanks, but a run in parentheses, brackets or braces
    and a string literal stay whole, so that `@relation(fields: [id])` is one
    token.  Outside of brackets an `@` opens a token of its own (an `@` after an
    `@` does not), and a comment ends a token and is dropped.  Inside of
    brackets a slash is just a slash.

    Closing brackets without an opening one are ordinary characters; brackets
    are counted, not matched by shape. -/

namespace Stencil.Schema

open Stencil.Text (isBlank)

/-- A left-to-right pass over a body: finished tokens latest first, the
    characters of the open token latest first, the number of open brackets. -/
structure TokenScan where
  finished : List String
  pending : List Char
  depth : Nat
  zone : Zone
deriving DecidableEq, Repr

namespace TokenScan

/-- The pass that has read nothing. -/
def start : TokenScan := ⟨[], [], 0, .code⟩

/-- Adds a character to the open token, opening one if there is none. -/
def push (s : TokenScan) (c : Char) : TokenScan :=
  { s with pending := c :: s.pending }

/-- Ends the open token, if there is one. -/
def close (s : TokenScan) : TokenScan :=
  if s.pending.isEmpty then s
  else { s with finished := String.ofList s.pending.reverse :: s.finished, pending := [] }

/-- Whether a character opens a bracketed run. -/
def isOpening (c : Char) : Bool := c = '(' || c = '[' || c = '{'

/-- Whether a character closes a bracketed run. -/
def isClosing (c : Char) : Bool := c = ')' || c = ']' || c = '}'

/-- Reads a character of code that is no part of a comment. -/
def code (s : TokenScan) (c : Char) : TokenScan :=
  if c = '"' then { s.push c with zone := .literal }
  else if c = '@' && s.depth = 0 && s.pending.head? != some '@' then s.close.push c
  else if isOpening c then { s.push c with depth := s.depth + 1 }
  else if isClosing c then { s.push c with depth := s.depth - 1 }
  else if isBlank c && s.depth = 0 then s.close
  else s.push c

/-- Reads one character.  A slash outside of brackets waits for the character
    after it, which decides whether it opens a comment. -/
def step (s : TokenScan) (c : Char) : TokenScan :=
  match s.zone with
  | .code =>
      if c = '/' && s.depth = 0 then { s with zone := .slash } else s.code c
  | .slash =>
      if c = '/' then { s.close with zone := .comment }
      -- the slash opened no comment, so it belongs to the token after all
      else ({ s with zone := .code }.push '/').code c
  | .comment => { s with zone := Zone.comment.next c }
  | .literal => { s.push c with zone := Zone.literal.next c }
  | .escape => { s.push c with zone := .literal }

/-- Reads a text. -/
def run (s : TokenScan) (text : List Char) : TokenScan :=
  text.foldl step s

/-- The tokens read, the open one included. -/
def result (s : TokenScan) : List String :=
  -- a slash may still wait for a character that does not come
  let s := if s.zone = .slash then s.push '/' else s
  s.close.finished.reverse

end TokenScan

/-- The tokens of a body, in order. -/
def tokens (body : String) : List String :=
  (TokenScan.start.run body.toList).result

end Stencil.Schema
