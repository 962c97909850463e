import Stencil.Project.NewFile
import Stencil.Project.Overrides
import Stencil.Project.SchemaFile
import Stencil.Template.Catalog
import Stencil.Template.Fill

/-! # Modules

    A module is generated from a plan: the name as the user typed it, the root of
    the project, the directory of overriding templates, and the fields of the
    model, if they are known.  Each template of the catalog makes one file.
    Files that are there already are skipped, before their template is read. -/

namespace Stencil.Project

open Files (Job)
open Schema (Model)

/-! ## Plans -/

/-- Whether a text has nothing but white space in it. -/
def isBlankName (name : String) : Bool :=
  (Text.trimSpace name.toList).isEmpty

/-- What is needed to generate a module. -/
structure ModulePlan where
  name : String
  root : String
  overrides : Option String
  fields : Option Model
  not_blank : isBlankName name = false

namespace ModulePlan

/-- A plan without fields; the name must not be blank. -/
def new (name root : String) (overrides : Option String) : Except Failure ModulePlan :=
  if h : isBlankName name then .error .blankName
  else .ok ⟨name, root, overrides, none, by simpa using h⟩

/-- Takes the fields of the model that the name means, if a schema was found and
    declares it. -/
def withSchema (plan : ModulePlan) (search : SchemaSearch) : ModulePlan :=
  match search.index?.bind (·.find? plan.name) with
  | some (_, model) => { plan with fields := some model }
  | none => plan

end ModulePlan

/-! ## Files -/

/-- A file of a module. -/
structure ModuleFile where
  path : String
  content : String
  description : String
deriving DecidableEq, Repr

/-- What became of the files of a module, each list in the order of the catalog. -/
structure ModuleReport where
  generated : List ModuleFile
  skipped : List String
deriving DecidableEq, Repr

namespace ModuleReport

/-- The report on no files. -/
def empty : ModuleReport := ⟨[], []⟩

/-- Adds a generated file in front. -/
def addGenerated (report : ModuleReport) (file : ModuleFile) : ModuleReport :=
  { report with generated := file :: report.generated }

/-- Adds a skipped path in front. -/
def addSkipped (report : ModuleReport) (path : String) : ModuleReport :=
  { report with skipped := path :: report.skipped }

end ModuleReport

namespace ModulePlan

/-- The file that a template makes. -/
def fill (plan : ModulePlan) (template : ModuleTemplate) : Attempt ModuleFile := do
  let text ← loadTemplate plan.overrides template.name template.builtin
  return ⟨template.outputPath plan.name, fillTemplate text plan.name plan.fields,
    template.description⟩

/-- The files of some templates, without writing any. -/
def previewOf (plan : ModulePlan) : List ModuleTemplate → Attempt (List ModuleFile)
  | [] => return []
  | template :: rest => do
      let file ← plan.fill template
      return file :: (← plan.previewOf rest)

/-- The files of the module, without writing any. -/
def preview (plan : ModulePlan) : Attempt (List ModuleFile) :=
  plan.previewOf ModuleTemplate.all

/-- Makes the files of some templates that are not there yet. -/
def generateOf (plan : ModulePlan) : List ModuleTemplate → Attempt ModuleReport
  | [] => return ModuleReport.empty
  | template :: rest => do
      let path := template.outputPath plan.name
      -- asked before the template is read, which may fail
      if ← Job.isThere (Path.join plan.root path) then
        return (← plan.generateOf rest).addSkipped path
      else
        let file ← plan.fill template
        match ← writeNewFile plan.root file.path file.content with
        | .written => return (← plan.generateOf rest).addGenerated file
        | .alreadyThere => return (← plan.generateOf rest).addSkipped file.path

/-- Makes the files of the module that are not there yet. -/
def generate (plan : ModulePlan) : Attempt ModuleReport :=
  plan.generateOf ModuleTemplate.all

end ModulePlan

end Stencil.Project
