import Stencil.Files.Job
import Stencil.Schema.Index

/-! # Schema files

    A schema is looked for at several paths in turn.  The first one at which
    there is anything decides: either that is a readable schema, or the search
    ends with the reason why it is none. -/

namespace Stencil.Project

open Files (Refusal Job)
open Schema (Header Index)

/-- Why what stands at a path is no schema. -/
inductive SchemaFailure where
  | unreadable (path : String) (reason : Refusal)
  | unclosed (header : Header)
deriving DecidableEq, Repr

namespace SchemaFailure

/-- What failed. -/
def message : SchemaFailure → String
  | .unreadable path reason =>
      "failed to read schema file " ++ path ++ ": " ++ reason.message
  | .unclosed header =>
      "unterminated " ++ header.kind.keyword ++ " block '" ++ header.name
        ++ "' starting at byte " ++ toString header.offset

/-- Why it failed, outermost reason first. -/
def causes : SchemaFailure → List String
  | .unreadable _ reason => [reason.message]
  | .unclosed _ => []

end SchemaFailure

/-- Reads a text as a schema. -/
def readSchema (text : String) : Except SchemaFailure Index :=
  (Index.read text).mapError .unclosed

/-- The schema at a path, if there is anything at the path. -/
def loadSchema (path : String) : Job (Except SchemaFailure (Option Index)) := do
  if ← Job.isThere path then
    match ← Job.readText path with
    | .ok text => return (readSchema text).map some
    | .error reason => return .error (.unreadable path reason)
  else return .ok none

/-- What a search for a schema comes to. -/
inductive SchemaSearch where
  | notFound
  | loaded (path : String) (index : Index)
  | unusable (path : String) (failure : SchemaFailure)
deriving DecidableEq, Repr

/-- The schema found, if one was. -/
def SchemaSearch.index? : SchemaSearch → Option Index
  | .loaded _ index => some index
  | .notFound => none
  | .unusable _ _ => none

/-- Searches for a schema at several paths. -/
def locateSchema : List String → Job SchemaSearch
  | [] => return .notFound
  | path :: rest => do
      match ← loadSchema path with
      | .ok none => locateSchema rest
      | .ok (some index) => return .loaded path index
      | .error failure => return .unusable path failure

end Stencil.Project
