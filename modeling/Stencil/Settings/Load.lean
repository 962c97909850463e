import Stencil.Files.Job
import Stencil.Settings.Basic
import Stencil.Settings.Toml.Document
import Stencil.Settings.Variable

/-! # Loading the settings

    The settings are what four layers come to, each laid over the one before:
    the defaults, the file of the user, the file of the project, the environment
    variables.  A file named on the command line stands in for the two files. -/

namespace Stencil.Settings

open Files (Job)

/-! ## Where the user keeps settings -/

/-- The home directory: what the variable says unless it says nothing, else the
    one of the superuser. -/
def homeDirectory (home : Option String) : String :=
  match home with
  | some path => if path.isEmpty then "/root" else path
  | none => "/root"

/-- The directory for the settings of a user: the one the user chose, if its path
    is absolute, else the customary one in the home directory. -/
def userDirectory (home chosen : Option String) : String :=
  match chosen with
  | some path =>
      if Path.isAbsolute path then path else Path.join (homeDirectory home) ".config"
  | none => Path.join (homeDirectory home) ".config"

/-- The settings file of a user. -/
def userFile (home chosen : Option String) : String :=
  Path.join (Path.join (userDirectory home chosen) "modgen") "config.toml"

/-- The settings file of a project. -/
def projectFile : String := "modgen.toml"

/-! ## Layers -/

/-- What a run finds around it: where the user keeps settings, and the variables,
    each with its name and its text. -/
structure Surroundings where
  home : Option String
  configHome : Option String
  environment : List (String × String)
deriving DecidableEq, Repr

/-- The first of some paths at which there is a file. -/
def firstFile : List String → Job (Option String)
  | [] => return none
  | path :: rest => do
      if ← Job.isFile path then return some path else firstFile rest

/-- The file that a path names: a relative one is looked for in the working
    directory and then in each directory above it. -/
def findFile (path : String) : Job (Option String) := do
  if Path.isAbsolute path then firstFile [path]
  else
    firstFile ((Path.ancestors (← Job.workingDirectory)).map (Path.join · path))

/-- The layer of a file: the empty one if there is no file, nothing if the file
    cannot be read as TOML. -/
def fileLayer (path : String) : Job (Option Value) := do
  match ← findFile path with
  | none => return some (.table [])
  | some found =>
      match ← Job.readText found with
      | .error _ => return none
      | .ok text => return (Toml.read text).map .table

/-- The layer of a file that is only looked for if there is something at its
    path. -/
def standardLayer (path : String) : Job (Option Value) := do
  if ← Job.isThere path then fileLayer path else return some (.table [])

/-- The settings that layers come to, from the lowest to the highest, the
    defaults below them all; nothing if one of them is invalid or what they come
    to is. -/
def combine (layers : List (Option Value)) : Option Settings := do
  let layers ← layers.mapM id
  Settings.ofValue? (layers.foldl Value.overlay Settings.default.toValue)

/-- Loads the settings from the standard places. -/
def load (around : Surroundings) : Job (Option Settings) := do
  let user ← standardLayer (userFile around.home around.configHome)
  let project ← standardLayer projectFile
  return combine [user, project, some (Variable.layer around.environment)]

/-- Loads the settings from a file that was named. -/
def loadFrom (path : String) (around : Surroundings) : Job (Option Settings) := do
  let file ← fileLayer path
  return combine [file, some (Variable.layer around.environment)]

end Stencil.Settings
