import Stencil.Project.Failure

/-! # Overriding templates

    A user may keep templates of their own in a directory.  A file there takes
    the place of the built-in template of the same relative name; anything else
    of that name does not. -/

namespace Stencil.Project

open Files (Job)

/-- The text of a template: that of the overriding file if there is one, else the
    built-in text. -/
def loadTemplate (overrides : Option String) (name builtin : String) : Attempt String := do
  match overrides with
  | none => return builtin
  | some directory =>
      let path := Path.join directory name
      if ← Job.isFile path then
        match ← Job.readText path with
        | .ok text => return text
        | .error reason => throw (.template path reason)
      else return builtin

end Stencil.Project
