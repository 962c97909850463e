import Stencil.Command.Arguments
import Stencil.Command.Failure
import Stencil.Command.Help
import Stencil.Command.Wording
import Stencil.Schema.JsonText
import Stencil.Settings.Load

/-! # Running a command

    A run reads its arguments, loads the settings and does what is asked for.  It
    comes to what it prints, and to a failure if it does not do all of its
    work. -/

namespace Stencil.Command

open Files (Job)
open Project
open Settings (Surroundings)

/-- What a command has printed, and why it ended early if it did. -/
structure Transcript where
  printed : String
  failure : Option Failure
deriving DecidableEq, Repr

/-- The paths at which a schema is looked for: the one given, which must lead
    somewhere, else those of the settings. -/
def schemaPaths (given : Option String) (settings : Settings) :
    Job (Except Failure (List String)) := do
  match given with
  | none => return .ok settings.schemaCandidates
  | some path =>
      if ← Job.isThere path then return .ok [path] else return .error (.noSchemaAt path)

/-- Sets up a server. -/
def init (settings : Settings) : Job Transcript := do
  let opening := serverOpening settings.outputRoot
  match ← (setUpServer settings.outputRoot settings.overrides).run with
  | .error cause => return ⟨opening, some (.server cause)⟩
  | .ok report => return ⟨opening ++ serverLines report ++ serverSteps, none⟩

/-- Generates a module. -/
def add (name : String) (given : Option String) (settings : Settings) : Job Transcript := do
  let opening := moduleOpening name
  match ← schemaPaths given settings with
  | .error failure => return ⟨opening, some failure⟩
  | .ok paths =>
      let search ← locateSchema paths
      let opening := opening ++ searchLine search
      match ModulePlan.new name settings.outputRoot settings.overrides with
      | .error cause => return ⟨opening, some (.plan cause)⟩
      | .ok plan =>
          let plan := plan.withSchema search
          let opening :=
            if search.index?.isSome && plan.fields.isNone then opening ++ noModelLine name
            else opening
          match ← plan.generate.run with
          | .error cause => return ⟨opening, some (.generation cause)⟩
          | .ok report => return ⟨opening ++ moduleLines report ++ moduleSteps name, none⟩

/-- Shows a schema. -/
def schema (given : Option String) (json : Bool) (settings : Settings) :
    Job Transcript := do
  match ← schemaPaths given settings with
  | .error failure => return ⟨"", some failure⟩
  | .ok paths =>
      match ← locateSchema paths with
      | .notFound => return ⟨"", some (.noSchema paths)⟩
      | .unusable path cause => return ⟨"", some (.unusableSchema path cause)⟩
      | .loaded path index =>
          return ⟨if json then index.indentedJson ++ "\n" else schemaLines path index, none⟩

/-- Does what a call asks for.  Asking the user needs a terminal, which a run does
    not have. -/
def perform (settings : Settings) : Action → Job Transcript
  | .ask => return ⟨"", some .noTerminal⟩
  | .init => init settings
  | .add name given => add name given settings
  | .schema given json => schema given json settings

/-- Loads the settings and carries out a call. -/
def carryOut (call : Call) (around : Surroundings) : Job Transcript := do
  let settings ←
    match call.config with
    | some path => Settings.loadFrom path around
    | none => Settings.load around
  match settings with
  | none => return ⟨"", some .settings⟩
  | some settings => perform settings call.action

/-- What a run comes to: the exit code, what was printed, and the failure. -/
structure Outcome where
  code : Nat
  printed : String
  failure : Option Failure
deriving DecidableEq, Repr

/-- Runs the program. -/
def run (arguments : List String) (around : Surroundings) : Job Outcome := do
  match Call.read arguments with
  | .error (.help topic) => return ⟨0, helpText topic, none⟩
  | .error .version => return ⟨0, versionText, none⟩
  | .error .misuse => return ⟨2, "", none⟩
  | .ok call =>
      let transcript ← carryOut call around
      return ⟨if transcript.failure.isSome then 1 else 0, transcript.printed,
        transcript.failure⟩

end Stencil.Command
