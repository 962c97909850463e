import Stencil.Schema.Zone
import Stencil.Text.Blank

/-! # Blocks of schema text

    A block is a keyword, blanks, a name, optional blanks, and a body in braces:

        model User { id Int }

    The body ends at the brace that closes the opening one, braces in string
    literals and comments not counted.  Everything between blocks is passed
    over, a keyword without a name and an opening brace included.

    The text is read once, character by character.  A `Scan` knows how far it is
    (in bytes), in which zone, and at which `Place` of a block. -/

namespace Stencil.Schema

open Stencil.Text (isBlank)

/-! ## Kinds, headers, blocks -/

/-- The kinds of blocks. -/
inductive BlockKind where
  | model
  | enum
  | type
  | view
  | datasource
  | generator
deriving DecidableEq, Repr

namespace BlockKind

/-- The word that opens a block of this kind. -/
def keyword : BlockKind → String
  | .model => "model"
  | .enum => "enum"
  | .type => "type"
  | .view => "view"
  | .datasource => "datasource"
  | .generator => "generator"

/-- Every kind. -/
def all : List BlockKind :=
  [.model, .enum, .type, .view, .datasource, .generator]

/-- The kind that a word opens, if it is a keyword. -/
def ofKeyword? (word : String) : Option BlockKind :=
  all.find? fun kind => kind.keyword = word

end BlockKind

/-- What stands before a body, with the byte offset of the keyword. -/
structure Header where
  kind : BlockKind
  name : String
  offset : Nat
deriving DecidableEq, Repr

/-- A block: its header and the text between its braces. -/
structure Block where
  header : Header
  body : String
deriving DecidableEq, Repr

/-! ## Scanning -/

/-- The characters of keywords and block names: ASCII letters, digits and the
    underscore. -/
def isNameChar (c : Char) : Bool :=
  c.isAlphanum || c = '_'

/-- Where a scan stands with respect to blocks.  Collected characters are kept
    latest first. -/
inductive Place where
  /-- Outside of blocks, not in a word. -/
  | between
  /-- In a word that may turn out to be a keyword. -/
  | word (start : Nat) (letters : List Char)
  /-- In the blanks after a keyword. -/
  | keyword (kind : BlockKind) (start : Nat)
  /-- In the word after a keyword. -/
  | name (kind : BlockKind) (start nameStart : Nat) (letters : List Char)
  /-- In the blanks after that word. -/
  | header (kind : BlockKind) (start nameStart : Nat) (label : String)
  /-- In a body, inside `depth` further braces. -/
  | body (opened : Header) (depth : Nat) (text : List Char)
deriving DecidableEq, Repr

/-- The word whose letters were collected latest first. -/
def wordOf (letters : List Char) : String :=
  String.ofList letters.reverse

/-- The place after a code character, outside of bodies.  When the word after a
    keyword is followed by something else than a brace, it is an ordinary word
    again, and may be a keyword itself. -/
def Place.next (offset : Nat) (c : Char) : Place → Place
  | .between => if isNameChar c then .word offset [c] else .between
  | .word start letters =>
      if isNameChar c then .word start (c :: letters)
      else if isBlank c then
        match BlockKind.ofKeyword? (wordOf letters) with
        | some kind => .keyword kind start
        | none => .between
      else .between
  | .keyword kind start =>
      if isNameChar c then .name kind start offset [c]
      else if isBlank c then .keyword kind start
      else .between
  | .name kind start nameStart letters =>
      if isNameChar c then .name kind start nameStart (c :: letters)
      else if isBlank c then .header kind start nameStart (wordOf letters)
      else if c = '{' then .body ⟨kind, wordOf letters, start⟩ 0 []
      else .between
  | .header kind start nameStart label =>
      if isNameChar c then
        -- a second word instead of a brace: the first one is looked at again
        match BlockKind.ofKeyword? label with
        | some inner => .name inner nameStart offset [c]
        | none => .word offset [c]
      else if isBlank c then .header kind start nameStart label
      else if c = '{' then .body ⟨kind, label, start⟩ 0 []
      else .between
  | .body opened depth text => .body opened depth (c :: text)

/-- A left-to-right pass over schema text; blocks are kept latest first. -/
structure Scan where
  offset : Nat
  zone : Zone
  place : Place
  found : List Block
deriving DecidableEq, Repr

namespace Scan

/-- The scan that has read nothing. -/
def start : Scan := ⟨0, .code, .between, []⟩

/-- Moves over one character to a new place. -/
def advance (s : Scan) (c : Char) (place : Place) : Scan :=
  ⟨s.offset + c.utf8Size, s.zone.next c, place, s.found⟩

/-- Reads one character. -/
def step (s : Scan) (c : Char) : Scan :=
  if s.zone.isCode then
    match s.place with
    | .body opened depth text =>
        if c = '{' then s.advance c (.body opened (depth + 1) (c :: text))
        else if c = '}' then
          match depth with
          -- the brace that closes the block itself
          | 0 =>
              { s.advance c .between with
                found := ⟨opened, String.ofList text.reverse⟩ :: s.found }
          | outer + 1 => s.advance c (.body opened outer (c :: text))
        else s.advance c (.body opened depth (c :: text))
    | place => s.advance c (place.next s.offset c)
  else
    match s.place with
    | .body opened depth text => s.advance c (.body opened depth (c :: text))
    | place => s.advance c place

/-- Reads a text. -/
def run (s : Scan) (text : List Char) : Scan :=
  text.foldl step s

/-- The blocks read, or the header of the block that is still open. -/
def result (s : Scan) : Except Header (List Block) :=
  match s.place with
  | .body opened _ _ => .error opened
  | _ => .ok s.found.reverse

end Scan

/-- The blocks of a text in order, or the header of the one that never closes. -/
def blocks (text : String) : Except Header (List Block) :=
  (Scan.start.run text.toList).result

end Stencil.Schema
