import Stencil.Project.Failure
import Stencil.Project.SchemaFile

/-! # Failures of a command

    Why a command ends without having done its work. -/

namespace Stencil.Command

open Project (SchemaFailure)

/-- The ways in which a command fails. -/
inductive Failure where
  /-- The settings are invalid. -/
  | settings
  /-- There is nobody to ask. -/
  | noTerminal
  /-- There is nothing at the path given for the schema. -/
  | noSchemaAt (path : String)
  /-- There is no schema at any of the paths. -/
  | noSchema (paths : List String)
  /-- What stands at the path is no schema. -/
  | unusableSchema (path : String) (cause : SchemaFailure)
  /-- The module cannot be planned. -/
  | plan (cause : Project.Failure)
  /-- The files of the module cannot be made. -/
  | generation (cause : Project.Failure)
  /-- The files of the server cannot be made. -/
  | server (cause : Project.Failure)
deriving DecidableEq, Repr

namespace Failure

/-- What failed. -/
def message : Failure → String
  | .settings => "Failed to load configuration"
  | .noTerminal => "IO error: not a terminal"
  | .noSchemaAt path => "Schema file not found: " ++ path
  | .noSchema paths => "No schema file found (looked in: " ++ ", ".intercalate paths ++ ")"
  | .unusableSchema path _ => "Failed to load schema: " ++ path
  | .plan _ => "Failed to create module generator"
  | .generation _ => "Failed to generate module files"
  | .server _ => "Failed to write server files"

/-- Why it failed, outermost reason first. -/
def causes : Failure → List String
  | .settings => []
  | .noTerminal => ["not a terminal"]
  | .noSchemaAt _ => []
  | .noSchema _ => []
  | .unusableSchema _ cause => cause.message :: cause.causes
  | .plan cause => cause.message :: cause.causes
  | .generation cause => cause.message :: cause.causes
  | .server cause => cause.message :: cause.causes

/-- The lines on the reasons, with numbers if there are several. -/
def causeLines : List String → String
  | [] => ""
  | [cause] => "\nCaused by:\n    " ++ cause ++ "\n"
  | causes =>
      "\nCaused by:\n"
        ++ String.join (causes.mapIdx fun n cause =>
          "    " ++ toString n ++ ": " ++ cause ++ "\n")

/-- The lines that tell the user of a failure. -/
def report (failure : Failure) : String :=
  "Error: " ++ failure.message ++ "\n" ++ causeLines failure.causes

end Failure

end Stencil.Command
