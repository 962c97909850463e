import Stencil.Schema.Model
import Stencil.Schema.Token

/-! # Declarations in a body

    A model body declares fields: a name, a type, and attributes, each a token
    that starts with `@`.  A token that starts with `@@` belongs to the whole
    block, and ends the attributes of the field before it.  A braced run where a
    name or a type should stand is passed over, as is a name without a type.

    A field that carries a `@relation(` attribute points to another model and is
    no scalar field; it is left out.

    An enum body declares its values: the tokens that are no attributes. -/

namespace Stencil.Schema

open Stencil.Text (occursIn)

/-- Whether a token is an attribute, of a field or of the block. -/
def isAttribute (token : String) : Bool :=
  token.toList.head? = some '@'

/-- Whether a token is an attribute of the whole block. -/
def isBlockAttribute (token : String) : Bool :=
  ['@', '@'].isPrefixOf token.toList

/-- Whether a token is a braced run. -/
def isBraced (token : String) : Bool :=
  token.toList.head? = some '{'

/-! ## Fields -/

/-- A field as it is declared: name, type token, attributes. -/
structure Declaration where
  name : String
  type : String
  attributes : List String
deriving DecidableEq, Repr

/-- Whether one of the attributes makes the field a relation. -/
def Declaration.isRelation (d : Declaration) : Bool :=
  d.attributes.any fun token => occursIn "@relation(".toList token.toList

/-- The attributes that follow a type. -/
def fieldAttributes (tokens : List String) : List String :=
  tokens.takeWhile fun token => isAttribute token && !isBlockAttribute token

/-- The fields that the tokens of a model body declare, in order. -/
def declarations : List String → List Declaration
  | [] => []
  | [_] => []
  | name :: type :: rest =>
      if isAttribute name || isBraced name || isAttribute type then
        declarations (type :: rest)
      else if isBraced type then declarations rest
      else ⟨name, type, fieldAttributes rest⟩ :: declarations rest

/-- The model that the tokens of a body declare. -/
def Model.ofTokens (tokens : List String) : Model :=
  Model.ofList
    (((declarations tokens).filter fun d => !d.isRelation).map fun d => (d.name, d.type))

/-! ## Enums -/

/-- A declared enum: its name and its values, each once, in order. -/
structure Enum where
  name : String
  values : List String
deriving DecidableEq, Repr

/-- The enum that the tokens of a body declare. -/
def Enum.ofTokens (name : String) (tokens : List String) : Enum :=
  ⟨name, (tokens.filter fun token => !isAttribute token).eraseDups⟩

end Stencil.Schema
