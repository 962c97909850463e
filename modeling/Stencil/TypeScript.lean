import Stencil.Schema.Model

/-! # TypeScript declarations

    The fields of a model as members of a TypeScript interface: one line a
    field, indented by two spaces, a question mark after the name of an optional
    one. -/

namespace Stencil.TypeScript

open Stencil.Schema (Field Model)

/-- The TypeScript type for a schema type: the scalars have their own names,
    every other type keeps the name it has. -/
def typeName (base : String) : String :=
  match base with
  | "Int" => "number"
  | "Float" => "number"
  | "String" => "string"
  | "Boolean" => "boolean"
  | "DateTime" => "Date"
  | "Json" => "any"
  | other => other

/-- One member of an interface, with its line end. -/
def member (field : Field) : String :=
  "  " ++ field.name ++ (if field.type.optional then "?" else "") ++ ": "
    ++ typeName field.type.base ++ ";\n"

/-- The members for the fields of a model. -/
def members (model : Model) : String :=
  String.join (model.fields.map member)

end Stencil.TypeScript
