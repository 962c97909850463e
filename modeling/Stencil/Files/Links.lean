import Stencil.Files.Job

/-! # Disks with symbolic links

    A symbolic link stands at a location and holds a path: whoever comes to it goes
    on by that path, seen from the directory of the link.  A path may lead through
    forty links.

    Looking and reading follow a link that is the last name of a path, too.  Making
    something does not: to it a link is something that is there, even if there is
    nothing where it leads. -/

namespace Stencil.Files

/-- A disk and the links on it, with the paths that they hold.  A link hides what
    the disk has at its location. -/
structure LinkedDisk where
  disk : Disk
  links : Ordered Location String

namespace LinkedDisk

/-- A disk without links. -/
def ofDisk (disk : Disk) : LinkedDisk := ⟨disk, Ordered.empty⟩

/-- The link at a location. -/
def link? (linked : LinkedDisk) (place : Location) : Option String := linked.links.get? place

/-! ## Following a path -/

/-- The names in a link.  A slash at its end asks for a directory. -/
def namesIn (link : String) : List String :=
  Path.names link ++ if Path.endsInSlash link then ["."] else []

/-- Goes on from a directory by some names up to the next link, and by `onLink` from
    there.  A link at the end is only followed if it is asked for. -/
def through (linked : LinkedDisk) (followLast : Bool)
    (onLink : Location → List String → Except Refusal Target) :
    Location → List String → Except Refusal Target
  | place, [] => return .directory place
  | place, name :: rest =>
      match linked.link? (place ++ [name]) with
      | some link =>
          if rest.isEmpty && !followLast then return .name place name
          else onLink (if Path.isAbsolute link then [] else place) (namesIn link ++ rest)
      | none =>
          if rest.isEmpty && !(name = "." || name = "..") then return .name place name
          else do linked.through followLast onLink (← linked.disk.enter place name) rest

/-- The refusal of a path that leads through too many links. -/
def tooManyLinks : Refusal := .other "Too many levels of symbolic links (os error 40)"

/-- Goes on from a directory by some names, through at most so many links. -/
def throughAtMost (linked : LinkedDisk) (followLast : Bool) :
    Nat → Location → List String → Except Refusal Target
  | 0 => linked.through followLast fun _ _ => throw tooManyLinks
  | links + 1 => linked.through followLast (linked.throughAtMost followLast links)

/-- Follows a path up to its last name, or up to where a link there leads. -/
def target (linked : LinkedDisk) (followLast : Bool) (path : String) : Except Refusal Target := do
  linked.throughAtMost followLast 40 (← linked.disk.begin path) (Path.names path)

/-! ## Requests -/

/-- What stands at a path. -/
def find (linked : LinkedDisk) (path : String) : Except Refusal Entry := do
  linked.disk.findAt path (← linked.target true path)

/-- The content of the file at a path. -/
def read (linked : LinkedDisk) (path : String) : Except Refusal ByteArray := do
  (← linked.find path).content

/-- What comes of making something at a target, unless there is a link. -/
def made (linked : LinkedDisk) (target : Target) (disk : Disk) : Except Refusal LinkedDisk :=
  match target with
  | .directory _ => return { linked with disk }
  | .name parent last =>
      match linked.link? (parent ++ [last]) with
      | some _ => throw .occupied
      | none => return { linked with disk }

/-- Makes a directory at a path where there is nothing yet. -/
def makeDirectory (linked : LinkedDisk) (path : String) : Except Refusal LinkedDisk := do
  let target ← linked.target false path
  linked.made target (← linked.disk.makeDirectoryAt target)

/-- Makes a file at a path where there is nothing yet. -/
def create (linked : LinkedDisk) (path : String) (content : ByteArray) :
    Except Refusal LinkedDisk := do
  let target ← linked.target false path
  linked.made target (← linked.disk.createAt path content target)

end LinkedDisk

/-- Runs a job on a disk with links. -/
def Job.runLinked {α : Type} (linked : LinkedDisk) : Job α → α × LinkedDisk
  | .done result => (result, linked)
  | .look path next => (next ((linked.find path).toOption.map Entry.kind)).runLinked linked
  | .read path next => (next (linked.read path)).runLinked linked
  | .makeDirectory path next =>
      let (answer, linked') := settle linked (linked.makeDirectory path)
      (next answer).runLinked linked'
  | .create path text next =>
      let (answer, linked') := settle linked (linked.create path text.toUTF8)
      (next answer).runLinked linked'
  | .here next => (next (absolute linked.disk.here)).runLinked linked

end Stencil.Files
