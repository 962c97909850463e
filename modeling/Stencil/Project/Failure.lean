import Stencil.Files.Job

/-! # Failures in a project

    What can go wrong while files are made, and attempts: jobs that may end in
    such a failure.  What was made before the failure stays. -/

namespace Stencil.Project

open Files (Refusal Job)

/-- The ways in which making files fails. -/
inductive Failure where
  /-- The module name is empty or white space. -/
  | blankName
  /-- A directory cannot be made. -/
  | directory (path : String) (reason : Refusal)
  /-- A file cannot be made. -/
  | file (path : String) (reason : Refusal)
  /-- The file that overrides a template cannot be read. -/
  | template (path : String) (reason : Refusal)
deriving DecidableEq, Repr

namespace Failure

/-- What failed. -/
def message : Failure → String
  | .blankName => "Module name cannot be empty"
  | .directory path _ => "Failed to create directory: " ++ path
  | .file path _ => "Failed to create file: " ++ path
  | .template path _ => "Failed to read template: " ++ path

/-- Why it failed, outermost reason first. -/
def causes : Failure → List String
  | .blankName => []
  | .directory _ reason => [reason.message]
  | .file _ reason => [reason.message]
  | .template _ reason => [reason.message]

end Failure

/-- A job that may fail. -/
abbrev Attempt (α : Type) := ExceptT Failure Job α

end Stencil.Project
