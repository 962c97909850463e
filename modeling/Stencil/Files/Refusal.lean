/-! # Refusals

    Why a file system refuses a request, and how it says so. -/

namespace Stencil.Files

/-- The reasons for refusing a request. -/
inductive Refusal where
  /-- There is nothing at the path, or no directory on the way to it. -/
  | missing
  /-- There is something at the path already. -/
  | occupied
  /-- A file stands where the path needs a directory. -/
  | notDirectory
  /-- A directory stands where the path needs a file. -/
  | isDirectory
  /-- A name on the path, or the path as a whole, is too long. -/
  | nameTooLong
  /-- The path has a NUL character in it. -/
  | nulCharacter
  /-- The content of the file is no text. -/
  | notText
  /-- Any other reason, in the words of the system. -/
  | other (message : String)
deriving DecidableEq, Repr

/-- The wording of a reason. -/
def Refusal.message : Refusal → String
  | .missing => "No such file or directory (os error 2)"
  | .occupied => "File exists (os error 17)"
  | .notDirectory => "Not a directory (os error 20)"
  | .isDirectory => "Is a directory (os error 21)"
  | .nameTooLong => "File name too long (os error 36)"
  | .nulCharacter => "file name contained an unexpected NUL byte"
  | .notText => "stream did not contain valid UTF-8"
  | .other message => message

end Stencil.Files
