import Stencil.Files.Refusal
import Stencil.Ordered
import Stencil.Path

/-! # Disks

    A disk is a finite tree of directories and files together with a working
    directory.  An entry is found by its location: the names from the root down
    to it.  The root is a directory on every disk.

    A path is followed name by name.  Each name on the way must be a directory,
    `.` stays where it is and `..` goes up; what the last name may be depends on
    the request. -/

namespace Stencil.Files

/-- The names from the root down to an entry. -/
abbrev Location := List String

/-- What may stand at a location. -/
inductive Entry where
  | directory
  | file (content : ByteArray)

/-- The kinds of entries.  A disk has directories and files only; a machine may
    have other entries, such as devices. -/
inductive Kind where
  | directory
  | file
  | other
deriving DecidableEq, Repr

/-- The kind of an entry. -/
def Entry.kind : Entry → Kind
  | .directory => .directory
  | .file _ => .file

/-- What is read of an entry: the content of a file. -/
def Entry.content : Entry → Except Refusal ByteArray
  | .directory => .error .isDirectory
  | .file content => .ok content

/-- Entries by location, and the working directory. -/
structure Disk where
  entries : Ordered Location Entry
  here : Location

/-- Where a path leads: to a directory that is there already, or to a name in
    one. -/
inductive Target where
  | directory (place : Location)
  | name (parent : Location) (last : String)

namespace Disk

/-- The disk with nothing on it. -/
def empty : Disk := ⟨Ordered.empty, []⟩

/-- What stands at a location. -/
def entry? (disk : Disk) (place : Location) : Option Entry :=
  if place = [] then some .directory else disk.entries.get? place

/-- Puts an entry at a location. -/
def put (disk : Disk) (place : Location) (entry : Entry) : Disk :=
  { disk with entries := disk.entries.put place entry }

/-! ## Following a path -/

/-- Names have at most 255 bytes. -/
def isLongName (name : String) : Bool := 255 < name.utf8ByteSize

/-- Goes from a directory to the one that a name leads to. -/
def enter (disk : Disk) (place : Location) (name : String) : Except Refusal Location :=
  if name = "." then .ok place
  else if name = ".." then .ok place.dropLast
  else if isLongName name then .error .nameTooLong
  else
    match disk.entry? (place ++ [name]) with
    | some .directory => .ok (place ++ [name])
    | some (.file _) => .error .notDirectory
    | none => .error .missing

/-- Where following a path begins.  The empty path leads nowhere, and paths have
    at most 4095 bytes. -/
def begin (disk : Disk) (path : String) : Except Refusal Location :=
  if path.isEmpty then .error .missing
  else if path.toList.contains '\x00' then .error .nulCharacter
  else if 4095 < path.utf8ByteSize then .error .nameTooLong
  else .ok (if Path.isAbsolute path then [] else disk.here)

/-- Follows a path up to its last name. -/
def target (disk : Disk) (path : String) : Except Refusal Target := do
  let start ← disk.begin path
  match (Path.names path).getLast? with
  | none => return .directory start
  | some last =>
      let parent ← (Path.names path).dropLast.foldlM disk.enter start
      if last = "." || last = ".." then return .directory (← disk.enter parent last)
      else return .name parent last

/-! ## Requests

    Each request is made of a target first, and of the path that leads there
    then. -/

/-- What stands at a target. -/
def findAt (disk : Disk) (path : String) : Target → Except Refusal Entry
  | .directory _ => return .directory
  | .name parent last => do
      if isLongName last then throw .nameTooLong
      match disk.entry? (parent ++ [last]) with
      | none => throw .missing
      | some .directory => return .directory
      | some (.file content) =>
          if Path.endsInSlash path then throw .notDirectory
          return .file content

/-- Makes a directory at a target where there is nothing yet. -/
def makeDirectoryAt (disk : Disk) : Target → Except Refusal Disk
  | .directory _ => throw .occupied
  | .name parent last => do
      if isLongName last then throw .nameTooLong
      match disk.entry? (parent ++ [last]) with
      | some _ => throw .occupied
      | none => return disk.put (parent ++ [last]) .directory

/-- Makes a file at a target where there is nothing yet. -/
def createAt (disk : Disk) (path : String) (content : ByteArray) : Target → Except Refusal Disk
  | .directory _ => throw .occupied
  | .name parent last => do
      -- a slash at the end asks for a directory, whether there is one or not
      if Path.endsInSlash path then throw .isDirectory
      if isLongName last then throw .nameTooLong
      match disk.entry? (parent ++ [last]) with
      | some _ => throw .occupied
      | none => return disk.put (parent ++ [last]) (.file content)

/-- What stands at a path. -/
def find (disk : Disk) (path : String) : Except Refusal Entry := do
  disk.findAt path (← disk.target path)

/-- The content of the file at a path. -/
def read (disk : Disk) (path : String) : Except Refusal ByteArray := do
  (← disk.find path).content

/-- Makes a directory at a path where there is nothing yet. -/
def makeDirectory (disk : Disk) (path : String) : Except Refusal Disk := do
  disk.makeDirectoryAt (← disk.target path)

/-- Makes a file at a path where there is nothing yet. -/
def create (disk : Disk) (path : String) (content : ByteArray) : Except Refusal Disk := do
  disk.createAt path content (← disk.target path)

end Disk

end Stencil.Files
