import Stencil.Path
import Stencil.Settings.Value

/-! # Settings

    There are three settings: the paths at which a schema is looked for, the
    directory of overriding templates, and the root of the project.  A relative
    path in the first two is meant from the root. -/

namespace Stencil

/-- The settings of a run. -/
structure Settings where
  schemaPaths : List String
  templatesDirectory : Option String
  outputRoot : String
deriving DecidableEq, Repr

namespace Settings

/-- The settings of a project that sets nothing. -/
def default : Settings where
  schemaPaths := ["prisma/schema.prisma", "src/database/schema.prisma", "schema.prisma"]
  templatesDirectory := none
  outputRoot := "."

/-- The schema paths, seen from the root. -/
def schemaCandidates (s : Settings) : List String :=
  s.schemaPaths.map (Path.join s.outputRoot)

/-- The directory of overriding templates, seen from the root. -/
def overrides (s : Settings) : Option String :=
  s.templatesDirectory.map (Path.join s.outputRoot)

/-- The settings as a configuration layer. -/
def toValue (s : Settings) : Value :=
  .table
    [("schema", .table [("paths", .list (s.schemaPaths.map .text))]),
      ("templates", .table (s.templatesDirectory.toList.map fun dir => ("dir", .text dir))),
      ("output", .table [("root", .text s.outputRoot)])]

/-! ## Reading settings from a value

    Each setting lies in a section of its own.  A section is a table, or a list
    that holds its settings by position; unknown names are passed over.  A
    section or a setting that is not there has its default; one of the wrong
    shape makes the whole configuration invalid. -/

/-- The value of the only setting of a section; nothing if the section has the
    wrong shape. -/
def setting? (root : List (String × Value)) (sectionName name : String) :
    Option (Option Value) :=
  match Value.get? root sectionName with
  | none => some none
  | some (.table entries) => some (Value.get? entries name)
  | some (.list items) => some items.head?
  | some _ => none

/-- A text. -/
def text? : Value → Option String
  | .text s => some s
  | _ => none

/-- A list of texts. -/
def texts? : Value → Option (List String)
  | .list items => items.mapM text?
  | _ => none

/-- A setting that is read if it is there. -/
def readOr {α : Type} (fallback : α) (read : Value → Option α) : Option Value → Option α
  | none => some fallback
  | some value => read value

/-- The settings that a value holds, if it is valid. -/
def ofValue? : Value → Option Settings
  | .table root => do
      let paths ← readOr default.schemaPaths texts? (← setting? root "schema" "paths")
      let dir ← readOr none (fun v => (text? v).map some) (← setting? root "templates" "dir")
      let outputRoot ← readOr default.outputRoot text? (← setting? root "output" "root")
      return ⟨paths, dir, outputRoot⟩
  | _ => none

end Settings

end Stencil
