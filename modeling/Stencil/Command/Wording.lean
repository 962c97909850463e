import Stencil.Project.Module
import Stencil.Project.Server

/-! # What commands print

    The lines that commands print about what they found and did. -/

namespace Stencil.Command

open Project (ModuleFile ModuleReport SchemaSearch ServerReport)
open Schema (Enum Index Model)

/-! ## Modules -/

/-- The line that a command to generate a module begins with. -/
def moduleOpening (name : String) : String :=
  "\nGenerating module " ++ name ++ " ...\n"

/-- The line on the schema that was found. -/
def searchLine : SchemaSearch → String
  | .loaded path _ => "  schema " ++ path ++ "\n"
  | .unusable path failure => "  ! ignoring " ++ path ++ ": " ++ failure.message ++ "\n"
  | .notFound => "  ! no schema found, fields left empty\n"

/-- The line on a model that the schema does not declare. -/
def noModelLine (name : String) : String :=
  "  ! model " ++ pascalCase name ++ " not found in schema, fields left empty\n"

/-- The line on a generated file. -/
def generatedLine (file : ModuleFile) : String :=
  "  ✓ " ++ file.path ++ " (" ++ file.description ++ ")\n"

/-- The lines on the files of a module. -/
def moduleLines (report : ModuleReport) : String :=
  "\nGenerated " ++ toString report.generated.length ++ " files:\n"
    ++ String.join (report.generated.map generatedLine)
    ++ if report.skipped.isEmpty then ""
      else
        "\nSkipped " ++ toString report.skipped.length ++ " existing files:\n"
          ++ String.join (report.skipped.map fun path => "  - " ++ path ++ "\n")

/-- The import of a router, and the path it is imported from. -/
def routerImport (name : String) : String :=
  let router := Text.lowerCase name ++ "Routes"
  "import " ++ router ++ " from \"./routes/" ++ router ++ "\";"

/-- The lines on what to do with a generated module. -/
def moduleSteps (name : String) : String :=
  "\nNext steps:\n"
    ++ "  1. Import the router in src/app.ts: " ++ routerImport name ++ "\n"
    ++ "  2. Mount it: app.use(" ++ Text.lowerCase name ++ "Routes);\n"

/-! ## Servers -/

/-- The line that a command to set up a server begins with. -/
def serverOpening (root : String) : String :=
  "Initializing server in " ++ root ++ "\n\n"

/-- The lines on the files of a server. -/
def serverLines (report : ServerReport) : String :=
  String.join (report.written.map fun path => "  ✓ " ++ path ++ "\n")
    ++ String.join (report.kept.map fun path => "  - " ++ path ++ " (exists)\n")
    ++ "\n✓ " ++ toString report.written.length ++ " files written, "
    ++ toString report.kept.length ++ " skipped\n"

/-- The lines on what to do with a fresh server. -/
def serverSteps : String :=
  "\nNext steps:\n\n"
    ++ "  1. Install dependencies:\n"
    ++ "     $ npm i express express-async-errors cors cookie-parser jsonwebtoken "
    ++ "bcryptjs pino pino-pretty @prisma/client\n\n"
    ++ "  2. Generate the Prisma client:\n"
    ++ "     $ npx prisma generate --schema src/database/schema.prisma\n\n"
    ++ "  3. Add your first module:\n"
    ++ "     $ modgen add user\n"

/-! ## Schemas -/

/-- A text with blanks after it, up to a number of characters. -/
def padded (width : Nat) (s : String) : String :=
  s ++ String.ofList (List.replicate (width - s.length) ' ')

/-- The lines on a model: its fields with their types in a second column, as wide
    as the longest name has bytes. -/
def modelLines (name : String) (model : Model) : String :=
  let width := (model.toList.map fun pair => pair.1.utf8ByteSize).foldl max 0
  "\nmodel " ++ name ++ "\n"
    ++ String.join (model.toList.map fun pair =>
      "  " ++ padded width pair.1 ++ "  " ++ pair.2 ++ "\n")

/-- The lines on an enum: its values. -/
def enumLines (e : Enum) : String :=
  "\nenum " ++ e.name ++ "\n"
    ++ String.join (e.values.map fun value => "  " ++ value ++ "\n")

/-- The lines on a schema. -/
def schemaLines (path : String) (index : Index) : String :=
  "Schema " ++ path ++ "\n"
    ++ String.join (index.models.toList.map fun pair => modelLines pair.1 pair.2)
    ++ String.join (index.enums.values.map enumLines)
    ++ if index.isEmpty then "\nno models or enums declared\n" else ""

end Stencil.Command
