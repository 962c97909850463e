import Stencil.Spelling
import Stencil.TypeScript

/-! # Slots

    A slot is a place of a template that is filled in for a module.  It is
    written as its key between double braces. -/

namespace Stencil

open Schema (Model)

/-- The slots a template may have. -/
inductive Slot where
  /-- The Pascal-case spelling. -/
  | pascal
  /-- The name in small letters. -/
  | lower
  /-- The name in capitals. -/
  | upper
  /-- The plural of the Pascal-case spelling. -/
  | pascalPlural
  /-- The plural of the name in small letters. -/
  | lowerPlural
  /-- The directory of the services. -/
  | services
  /-- The interface members for the fields. -/
  | fields
deriving DecidableEq, Repr

namespace Slot

/-- Every slot. -/
def all : List Slot :=
  [.pascal, .lower, .upper, .pascalPlural, .lowerPlural, .services, .fields]

/-- What stands between the braces. -/
def key : Slot → String
  | .pascal => "Model"
  | .lower => "model"
  | .upper => "MODEL"
  | .pascalPlural => "ModelPlural"
  | .lowerPlural => "modelPlural"
  | .services => "ModuleServicesPath"
  | .fields => "fields"

/-- The slot with a key. -/
def ofKey? (key : String) : Option Slot :=
  all.find? fun slot => slot.key = key

/-- The slot as it is written in a template. -/
def written (slot : Slot) : List Char :=
  ['{', '{'] ++ slot.key.toList ++ ['}', '}']

/-- What fills the slot, given the spellings of the module name and the fields of
    its model, if they are known. -/
def filling (spellings : Spellings) (fields : Option Model) : Slot → String
  | .pascal => spellings.pascal
  | .lower => spellings.lower
  | .upper => spellings.upper
  | .pascalPlural => spellings.pascalPlural
  | .lowerPlural => spellings.lowerPlural
  | .services => spellings.services
  | .fields =>
      match fields with
      | some model => TypeScript.members model
      | none => ""

/-- A written slot takes up room. -/
theorem length_written_pos (slot : Slot) : 0 < slot.written.length := by
  simp [written]

end Slot

end Stencil
