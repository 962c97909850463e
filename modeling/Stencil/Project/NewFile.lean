import Stencil.Project.Failure

/-! # New files

    A file is written only where there is nothing; what is there already is left
    as it is.  The directories on the way are made as needed. -/

namespace Stencil.Project

open Files (Job)

/-- What became of a file that was to be written. -/
inductive WriteOutcome where
  | written
  | alreadyThere
deriving DecidableEq, Repr

/-- Makes the directory that a path lies in, if the path has a parent. -/
def makeParent (path : String) : Attempt Unit := do
  match Path.parent? path with
  | none => return ()
  | some parent =>
      match ← Job.makeDirectories parent with
      | .ok () => return ()
      | .error reason => throw (.directory parent reason)

/-- Writes a text to a path below a root, unless there is something already. -/
def writeNewFile (root path text : String) : Attempt WriteOutcome := do
  let full := Path.join root path
  makeParent full
  match ← Job.createFile full text with
  | .ok () => return .written
  | .error .occupied => return .alreadyThere
  | .error reason => throw (.file full reason)

end Stencil.Project
