import Stencil.Command.Run

/-! # The program

    Jobs are carried out on the machine: each request is put to the file system,
    and its answer goes to the rest of the job.  The program carries out the run
    that its arguments ask for, prints what the run printed, and tells of a
    failure on the error stream. -/

namespace Stencil

open Files (Job Kind Refusal)

/-! ## Refusals of the machine -/

/-- Number and wording of an error of the system, where it has a number. -/
def systemError? : IO.Error → Option (Nat × String)
  | .alreadyExists _ code details => some (code.toNat, details)
  | .inappropriateType _ code details => some (code.toNat, details)
  | .invalidArgument _ code details => some (code.toNat, details)
  | .noFileOrDirectory _ code details => some (code.toNat, details)
  | .permissionDenied _ code details => some (code.toNat, details)
  | .resourceExhausted _ code details => some (code.toNat, details)
  | .noSuchThing _ code details => some (code.toNat, details)
  | .interrupted _ code details => some (code.toNat, details)
  | .otherError code details => some (code.toNat, details)
  | .resourceBusy code details => some (code.toNat, details)
  | .resourceVanished code details => some (code.toNat, details)
  | .unsupportedOperation code details => some (code.toNat, details)
  | .hardwareFault code details => some (code.toNat, details)
  | .unsatisfiedConstraints code details => some (code.toNat, details)
  | .illegalOperation code details => some (code.toNat, details)
  | .protocolError code details => some (code.toNat, details)
  | .timeExpired code details => some (code.toNat, details)
  | .unexpectedEof => none
  | .userError _ => none

/-- The refusal that an error of the system means. -/
def refusalOf (error : IO.Error) : Refusal :=
  match systemError? error with
  | some (2, _) => .missing
  | some (17, _) => .occupied
  | some (20, _) => .notDirectory
  | some (21, _) => .isDirectory
  | some (36, _) => .nameTooLong
  | some (code, details) => .other (details ++ " (os error " ++ toString code ++ ")")
  | none => .other (toString error)

/-- Puts a request to the machine. -/
def answerTo {α : Type} (request : IO α) : IO (Except Refusal α) := do
  match ← request.toBaseIO with
  | .ok result => return .ok result
  | .error error => return .error (refusalOf error)

/-! ## Requests to the machine -/

/-- The kind of what stands at a path. -/
def kindAt (path : String) : IO (Option Kind) := do
  if path.isEmpty then return none
  match ← ((← IO.currentDir) / path).metadata.toBaseIO with
  | .ok data =>
      match data.type with
      | .dir => return some .directory
      | .file => return some .file
      | _ => return some .other
  | .error _ => return none

/-- Makes a file where there is nothing yet. -/
def createAt (path text : String) : IO Unit := do
  let handle ← IO.FS.Handle.mk path .writeNew
  handle.putStr text

/-- Carries out a job on the machine. -/
def carryOut {α : Type} : Job α → IO α
  | .done result => return result
  | .look path next => do carryOut (next (← kindAt path))
  | .read path next => do carryOut (next (← answerTo (IO.FS.readBinFile path)))
  | .makeDirectory path next => do carryOut (next (← answerTo (IO.FS.createDir path)))
  | .create path text next => do carryOut (next (← answerTo (createAt path text)))
  | .here next => do carryOut (next (toString (← IO.currentDir)))

/-! ## Surroundings -/

/-- The variables that a list of settings `name=text` makes, each ended by a NUL
    byte. -/
def variablesOf (content : ByteArray) : List (String × String) :=
  match String.fromUTF8? content with
  | none => []
  | some text =>
      ((text.splitOn "\x00").filter fun line => !line.isEmpty).map fun line =>
        (String.ofList (line.toList.takeWhile (· ≠ '=')),
          String.ofList ((line.toList.dropWhile (· ≠ '=')).drop 1))

/-- What the program finds around it. -/
def surroundings : IO Settings.Surroundings := do
  let environment ←
    match ← (IO.FS.readBinFile "/proc/self/environ").toBaseIO with
    | .ok content => pure (variablesOf content)
    | .error _ => pure []
  return ⟨← IO.getEnv "HOME", ← IO.getEnv "XDG_CONFIG_HOME", environment⟩

end Stencil

/-- Runs the program on its arguments. -/
def main (arguments : List String) : IO UInt32 := do
  let around ← Stencil.surroundings
  let outcome ← Stencil.carryOut (Stencil.Command.run arguments around)
  IO.print outcome.printed
  if outcome.code = 2 then IO.eprint Stencil.Command.misuseText
  match outcome.failure with
  | some failure => IO.eprint failure.report
  | none => pure ()
  return outcome.code.toUInt32
