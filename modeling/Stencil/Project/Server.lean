import Stencil.Project.NewFile
import Stencil.Project.Overrides
import Stencil.Template.Catalog

/-! # A fresh server

    The files of a server are copied into the project as they are; those that are
    there already are kept.  Every template is read, also one whose file is there
    already. -/

namespace Stencil.Project

/-- What became of the files of a server, each list in the order of the catalog. -/
structure ServerReport where
  written : List String
  kept : List String
deriving DecidableEq, Repr

namespace ServerReport

/-- The report on no files. -/
def empty : ServerReport := ⟨[], []⟩

/-- Adds a written path in front. -/
def addWritten (report : ServerReport) (path : String) : ServerReport :=
  { report with written := path :: report.written }

/-- Adds a kept path in front. -/
def addKept (report : ServerReport) (path : String) : ServerReport :=
  { report with kept := path :: report.kept }

end ServerReport

/-- Copies some server files into a project. -/
def copyServerFiles (root : String) (overrides : Option String) :
    List ServerFile → Attempt ServerReport
  | [] => return ServerReport.empty
  | file :: rest => do
      let content ← loadTemplate overrides file.name file.builtin
      match ← writeNewFile root file.output content with
      | .written => return (← copyServerFiles root overrides rest).addWritten file.output
      | .alreadyThere => return (← copyServerFiles root overrides rest).addKept file.output

/-- Sets up a server in a project. -/
def setUpServer (root : String) (overrides : Option String) : Attempt ServerReport :=
  copyServerFiles root overrides ServerFile.all

end Stencil.Project
