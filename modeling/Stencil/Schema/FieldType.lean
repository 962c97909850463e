import Stencil.Text.Search

/-! # Field types

    A declared type is a base and a mark for optional fields, written as a
    question mark at the end.  Repeated marks say nothing new, so the base never
    ends in one. -/

namespace Stencil.Schema

open Stencil.Text (stripTrailing getLast?_stripTrailing)

/-- A declared type. -/
structure FieldType where
  base : String
  optional : Bool
  base_unmarked : base.toList.getLast? ≠ some '?'
deriving DecidableEq

namespace FieldType

/-- The base of a type token: the token without its question marks. -/
def baseOf (token : String) : String :=
  String.ofList (stripTrailing '?' token.toList)

/-- Reads a type token. -/
def ofToken (token : String) : FieldType where
  base := baseOf token
  optional := baseOf token != token
  base_unmarked := by
    rw [baseOf, String.toList_ofList]
    exact getLast?_stripTrailing '?' token.toList

/-- The written form: the base, with one question mark if optional. -/
def text (t : FieldType) : String :=
  if t.optional then t.base ++ "?" else t.base

instance : Repr FieldType := ⟨fun t _ => t.text⟩

/-- The same type with another base. -/
def withBase (t : FieldType) (base : String) : FieldType :=
  ofToken (if t.optional then base ++ "?" else base)

end FieldType

end Stencil.Schema
