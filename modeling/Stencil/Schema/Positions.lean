import Stencil.Schema.Block
import Stencil.Schema.Token

/-! # Scanning by positions

    `Schema.blocks` and `Schema.tokens` collect the characters that they read.  The same
    can be done without collecting anything: a position moves over the bytes of the text,
    and names, bodies and tokens are cut out of the text where they end.

    Such a scan can go wrong.  A loop may stand still, leave the text, count closing
    braces that nothing opened, look before the beginning, or cut through the middle of a
    character.  Each of these is a `Fault` here. -/

namespace Stencil.Schema.Positions

open Stencil.Text (isBlank)

/-! ## Faults -/

/-- What may go wrong at a position. -/
inductive Fault where
  /-- A turn of a loop does not move on. -/
  | still (position : Nat)
  /-- A turn of a loop leaves the text. -/
  | outside (position : Nat)
  /-- A brace closes what nothing opened. -/
  | unopened (position : Nat)
  /-- The byte before the first one is read, or one after the last. -/
  | unread (position : Nat)
  /-- The two ends are no boundaries of characters, or stand in the wrong order. -/
  | cut (start stop : Nat)
deriving DecidableEq, Repr

/-- A result, unless something goes wrong. -/
abbrev Checked := Except Fault

/-! ## Bytes -/

/-- The bytes of a text, each of them seen as the character of that number. -/
def marks (text : String) : List Char :=
  text.toUTF8.data.toList.map Char.ofUInt8

/-- The part of a text between two positions. -/
def slice (text : String) (start stop : Nat) : Checked String :=
  if h : (⟨start⟩ : String.Pos.Raw).IsValid text ∧ (⟨stop⟩ : String.Pos.Raw).IsValid text
      ∧ start ≤ stop then
    .ok (text.extract (text.pos ⟨start⟩ h.1) (text.pos ⟨stop⟩ h.2.1))
  else .error (.cut start stop)

/-- The byte before a position. -/
def markBefore (m : List Char) : Nat → Checked Char
  | 0 => .error (.unread 0)
  | before + 1 =>
      match m[before]? with
      | some c => .ok c
      | none => .error (.unread (before + 1))

/-- The first position, from a given one on, whose byte is none of these. -/
def skipWhile (p : Char → Bool) (m : List Char) (position : Nat) : Nat :=
  position + ((m.drop position).takeWhile p).length

/-- Whether two slashes stand at a position. -/
def startsComment (m : List Char) (position : Nat) (h : position < m.length) : Bool :=
  m[position] = '/' && m[position + 1]? = some '/'

/-- The end of the line that a position is in. -/
def lineEnd (m : List Char) (position : Nat) : Nat :=
  match (m.drop position).findIdx? (· = '\n') with
  | some distance => position + distance
  | none => m.length

/-- The position after a literal, from a position inside of it; a literal that is not
    closed goes on to the end.  A backslash takes the next byte along, though it may be
    one byte of several that make a character. -/
def literalEnd (m : List Char) (position : Nat) : Nat :=
  if h : position < m.length then
    if m[position] = '\\' then literalEnd m (position + 2)
    else if m[position] = '"' then position + 1
    else literalEnd m (position + 1)
  else m.length
termination_by m.length - position

/-! ## Loops -/

/-- What a turn of a loop comes to: another position, or an answer. -/
inductive Turn (σ β : Type) where
  | on (position : Nat) (state : σ)
  | over (answer : β)

/-- Takes turns until there is an answer or the end of the text is reached. -/
def walk {σ β : Type} (size : Nat)
    (turn : (position : Nat) → position < size → σ → Checked (Turn σ β))
    (finish : σ → Checked β) (position : Nat) (state : σ) : Checked β :=
  if h : position < size then
    match turn position h state with
    | .error fault => .error fault
    | .ok (.over answer) => .ok answer
    | .ok (.on next state) =>
        if position < next then
          if next ≤ size then walk size turn finish next state else .error (.outside next)
        else .error (.still position)
  else finish state
termination_by size - position

/-! ## Blocks -/

/-- What a closing brace comes to, by the number of open ones. -/
def closeOne (position : Nat) : Nat → Checked (Turn Nat (Option Nat))
  | 0 => .error (.unopened position)
  | 1 => .ok (.over (some position))
  | outer + 2 => .ok (.on (position + 1) (outer + 1))

/-- A turn of the search for a closing brace, with the number of open ones. -/
def closingTurn (m : List Char) (position : Nat) (h : position < m.length) (depth : Nat) :
    Checked (Turn Nat (Option Nat)) :=
  if m[position] = '"' then .ok (.on (literalEnd m (position + 1)) depth)
  else if startsComment m position h then .ok (.on (lineEnd m position) depth)
  else if m[position] = '{' then .ok (.on (position + 1) (depth + 1))
  else if m[position] = '}' then closeOne position depth
  else .ok (.on (position + 1) depth)

/-- The position of the brace that closes the one at a position, if there is one. -/
def closingBrace (m : List Char) (opening : Nat) : Checked (Option Nat) :=
  walk m.length (closingTurn m) (fun _ => .ok none) opening 0

/-- The header that starts with the word between two positions, if there is one, with the
    position of the brace after it. -/
def headerAt (text : String) (m : List Char) (start stop : Nat) :
    Checked (Option (Header × Nat)) :=
  match slice text start stop with
  | .error fault => .error fault
  | .ok word =>
      match BlockKind.ofKeyword? word with
      | none => .ok none
      | some kind =>
          let nameStart := skipWhile isBlank m stop
          let nameEnd := skipWhile isNameChar m nameStart
          let opening := skipWhile isBlank m nameEnd
          if nameEnd = nameStart then .ok none
          else if m[opening]? = some '{' then
            (slice text nameStart nameEnd).map fun name => some (⟨kind, name, start⟩, opening)
          else .ok none

/-- A turn of the search for blocks, with those found so far, latest first.  After a
    header that is none, the search goes on after its first word. -/
def blockTurn (text : String) (m : List Char) (position : Nat) (h : position < m.length)
    (found : List Block) : Checked (Turn (List Block) (Except Header (List Block))) :=
  if m[position] = '"' then .ok (.on (literalEnd m (position + 1)) found)
  else if startsComment m position h then .ok (.on (lineEnd m position) found)
  else if isNameChar m[position] then
    let wordEnd := skipWhile isNameChar m position
    match headerAt text m position wordEnd with
    | .error fault => .error fault
    | .ok none => .ok (.on wordEnd found)
    | .ok (some (header, opening)) =>
        match closingBrace m opening with
        | .error fault => .error fault
        | .ok none => .ok (.over (.error header))
        | .ok (some closing) =>
            (slice text (opening + 1) closing).map fun body =>
              .on (closing + 1) (⟨header, body⟩ :: found)
  else .ok (.on (position + 1) found)

/-- The blocks of a text, found by positions. -/
def blocks (text : String) : Checked (Except Header (List Block)) :=
  let m := marks text
  walk m.length (blockTurn text m) (fun found => .ok (.ok found.reverse)) 0 []

/-! ## Tokens -/

/-- The state of a search for tokens: those found, latest first, where the open one
    starts, and the number of open brackets. -/
structure Cutting where
  found : List String
  start : Option Nat
  depth : Nat
deriving DecidableEq, Repr

namespace Cutting

/-- Opens a token at a position, unless one is open. -/
def begin (s : Cutting) (position : Nat) : Cutting :=
  { s with start := some (s.start.getD position) }

/-- Cuts out the open token, if there is one. -/
def finish (text : String) (position : Nat) (s : Cutting) : Checked Cutting :=
  match s.start with
  | none => .ok s
  | some start =>
      (slice text start position).map fun token =>
        { s with found := token :: s.found, start := none }

end Cutting

/-- Whether an open token ends before the at sign at a position. -/
def splits (m : List Char) (position : Nat) (h : position < m.length) (s : Cutting) :
    Checked Bool :=
  match s.start with
  | none => .ok false
  | some start =>
      if m[position] = '@' ∧ s.depth = 0 ∧ start < position then
        (markBefore m position).map (· != '@')
      else .ok false

/-- A turn of the search for tokens. -/
def tokenTurn (body : String) (m : List Char) (position : Nat) (h : position < m.length)
    (s : Cutting) : Checked (Turn Cutting (List String)) :=
  if m[position] = '"' then .ok (.on (literalEnd m (position + 1)) (s.begin position))
  else if s.depth = 0 ∧ startsComment m position h then
    (s.finish body position).map (.on (lineEnd m position))
  else
    match splits m position h s with
    | .error fault => .error fault
    | .ok true =>
        (s.finish body position).map fun s => .on (position + 1) (s.begin position)
    | .ok false =>
        if TokenScan.isOpening m[position] then
          .ok (.on (position + 1) { s.begin position with depth := s.depth + 1 })
        else if TokenScan.isClosing m[position] then
          .ok (.on (position + 1) { s.begin position with depth := s.depth - 1 })
        else if isBlank m[position] then
          if s.depth = 0 then (s.finish body position).map (.on (position + 1))
          else .ok (.on (position + 1) s)
        else .ok (.on (position + 1) (s.begin position))

/-- The tokens of a body, found by positions. -/
def tokens (body : String) : Checked (List String) :=
  let m := marks body
  walk m.length (tokenTurn body m)
    (fun s => (s.finish body m.length).map fun s => s.found.reverse) 0 ⟨[], none, 0⟩

end Stencil.Schema.Positions
