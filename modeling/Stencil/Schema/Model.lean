import Stencil.Ordered
import Stencil.Schema.FieldType

/-! # Models

    A model is an insertion-ordered map from field names to declared types:
    declaring a field again changes its type and keeps its place. -/

namespace Stencil.Schema

/-- A field: its name and its declared type. -/
structure Field where
  name : String
  type : FieldType
deriving DecidableEq, Repr

/-- Reads a field from its name and its type token. -/
def Field.ofToken (name token : String) : Field :=
  ⟨name, FieldType.ofToken token⟩

/-- The scalar fields of a model, in order of declaration. -/
structure Model where
  types : Ordered String FieldType
deriving DecidableEq, Repr

namespace Model

/-- The model without fields. -/
def empty : Model := ⟨Ordered.empty⟩

instance : Inhabited Model := ⟨empty⟩

/-- Declares a field with a type token. -/
def insert (m : Model) (name token : String) : Model :=
  ⟨m.types.put name (FieldType.ofToken token)⟩

/-- The model that declares the pairs of name and type token in turn. -/
def ofList (pairs : List (String × String)) : Model :=
  pairs.foldl (fun m pair => m.insert pair.1 pair.2) empty

/-- The pairs of name and written type, in order. -/
def toList (m : Model) : List (String × String) :=
  m.types.toList.map fun pair => (pair.1, pair.2.text)

/-- The fields, in order. -/
def fields (m : Model) : List Field :=
  m.types.toList.map fun pair => ⟨pair.1, pair.2⟩

/-- The written type of a field. -/
def get? (m : Model) (name : String) : Option String :=
  (m.types.get? name).map FieldType.text

/-- Whether a field of this name is declared. -/
def contains (m : Model) (name : String) : Bool :=
  m.types.contains name

/-- The number of fields. -/
def size (m : Model) : Nat := m.types.size

/-- Whether there are no fields. -/
def isEmpty (m : Model) : Bool := m.types.isEmpty

end Model

end Stencil.Schema
