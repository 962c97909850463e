import Stencil.Schema.Block
import Stencil.Schema.Declaration
import Stencil.Spelling

/-! # The index of a schema

    The models and enums that a schema text declares, each in order of first
    declaration; a second declaration of a name replaces the first one where it
    stands.  Blocks of the other kinds declare nothing here. -/

namespace Stencil.Schema

/-- The models and enums of one schema text. -/
structure Index where
  models : Ordered String Model
  enums : Ordered String Enum
deriving DecidableEq, Repr

namespace Index

/-- The index without models and enums. -/
def empty : Index := ⟨Ordered.empty, Ordered.empty⟩

instance : Inhabited Index := ⟨empty⟩

/-- Whether nothing is declared. -/
def isEmpty (index : Index) : Bool :=
  index.models.isEmpty && index.enums.isEmpty

end Index

/-! ## Reading -/

/-- A type whose base is a declared enum takes the name of that enum; optional
    types stay optional. -/
def FieldType.resolve (enums : Ordered String Enum) (t : FieldType) : FieldType :=
  match enums.get? t.base with
  | some declared => t.withBase declared.name
  | none => t

/-- Resolves the type of every field. -/
def Model.resolve (enums : Ordered String Enum) (m : Model) : Model :=
  ⟨m.types.mapValues (·.resolve enums)⟩

/-- The enum that a block declares, under its name. -/
def Block.enum? (block : Block) : Option (String × Enum) :=
  if block.header.kind = .enum then
    some (block.header.name, Enum.ofTokens block.header.name (tokens block.body))
  else none

/-- The model that a block declares, under its name. -/
def Block.model? (block : Block) : Option (String × Model) :=
  if block.header.kind = .model then
    some (block.header.name, Model.ofTokens (tokens block.body))
  else none

namespace Index

/-- The enums that blocks declare. -/
def enumsOf (blocks : List Block) : Ordered String Enum :=
  Ordered.ofList (blocks.filterMap Block.enum?)

/-- What blocks declare.  The enums come first, since the types of fields may
    name an enum that is declared further down. -/
def ofBlocks (blocks : List Block) : Index where
  models := Ordered.ofList <| (blocks.filterMap Block.model?).map fun pair =>
    (pair.1, pair.2.resolve (enumsOf blocks))
  enums := enumsOf blocks

/-- What a text declares, or the header of the block that never closes. -/
def read (text : String) : Except Header Index :=
  (blocks text).map ofBlocks

/-- What a text declares; nothing if one of its blocks never closes. -/
def readLenient (text : String) : Index :=
  match read text with
  | .ok index => index
  | .error _ => empty

/-! ## Looking up -/

/-- The model declared under exactly this name. -/
def model? (index : Index) (name : String) : Option Model :=
  index.models.get? name

/-- The enum declared under exactly this name. -/
def enum? (index : Index) (name : String) : Option Enum :=
  index.enums.get? name

/-- Whether two texts agree up to the case of ASCII letters. -/
def sameIgnoringCase (a b : String) : Bool :=
  a.toList.map Char.toLower = b.toList.map Char.toLower

/-- The model that a user means by a name, with the name it is declared under:
    the name as given, else its Pascal-case spelling, else the first declared
    name that agrees with that spelling up to ASCII case. -/
def find? (index : Index) (name : String) : Option (String × Model) :=
  let pascal := pascalCase name
  match index.model? name with
  | some model => some (name, model)
  | none =>
      match index.model? pascal with
      | some model => some (pascal, model)
      | none => index.models.toList.find? fun pair => sameIgnoringCase pair.1 pascal

end Index

end Stencil.Schema
