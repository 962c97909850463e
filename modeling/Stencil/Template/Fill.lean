import Stencil.Template.Slot

/-! # Filling a template

    A template is read from left to right as a sequence of pieces: slots, and
    characters that belong to no slot.  Filling replaces the slots, all at once:
    what is filled in is not looked at again. -/

namespace Stencil

open Schema (Model)

/-- A piece of a template. -/
inductive Piece where
  | literal (c : Char)
  | slot (which : Slot)
deriving DecidableEq, Repr

namespace Piece

/-- The slot that a text starts with. -/
def slotAt? (cs : List Char) : Option Slot :=
  Slot.all.find? fun candidate => candidate.written.isPrefixOf cs

/-- The pieces of a template, in order. -/
def split : List Char → List Piece
  | [] => []
  | c :: rest =>
      match slotAt? (c :: rest) with
      | some found => .slot found :: split ((c :: rest).drop found.written.length)
      | none => .literal c :: split rest
termination_by cs => cs.length
decreasing_by
  · have := found.length_written_pos
    simp only [List.length_drop, List.length_cons]
    omega
  · simp

/-- What becomes of a piece. -/
def fill (filling : Slot → String) : Piece → String
  | .literal c => String.singleton c
  | .slot which => filling which

end Piece

/-- The template filled in for a module name and the fields of its model. -/
def fillTemplate (template name : String) (fields : Option Model) : String :=
  let filling := Slot.filling (Spellings.of name) fields
  String.join ((Piece.split template.toList).map (Piece.fill filling))

end Stencil
