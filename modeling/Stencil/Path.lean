/-! # Paths

    A path is text.  Joining and taking the parent work on the text alone:
    nothing is looked up and, apart from the end of a parent, nothing is
    tidied. -/

namespace Stencil.Path

/-! ## Joining -/

/-- Whether a path starts at the root. -/
def isAbsolute (path : String) : Bool :=
  path.toList.head? = some '/'

/-- Whether a path ends in a slash. -/
def endsInSlash (path : String) : Bool :=
  path.toList.getLast? = some '/'

/-- A path seen from a base: an absolute path replaces the base, any other is put
    after it, with a slash between unless the base is empty or ends in one. -/
def join (base path : String) : String :=
  if isAbsolute path then path
  else if base.isEmpty || endsInSlash base then base ++ path
  else base ++ "/" ++ path

/-! ## Names -/

/-- The parts between slashes, empty ones included. -/
def splitSlash : List Char → List (List Char)
  | [] => [[]]
  | c :: rest =>
      if c = '/' then [] :: splitSlash rest
      else
        match splitSlash rest with
        | [] => [[c]]
        | part :: parts => (c :: part) :: parts

/-- The names on the way, in order; empty parts are no names. -/
def names (path : String) : List String :=
  ((splitSlash path.toList).filter fun part => !part.isEmpty).map String.ofList

/-! ## Parents

    A path is a head, `/` or a leading `.` or nothing, and a body.  The end of a
    body is idle where it says nothing: slashes, and a `.` that is a whole name.
    Bodies are handled from their end, so they are reversed here. -/

/-- Head and body of a path. -/
def headBody : List Char → List Char × List Char
  | '/' :: body => (['/'], body)
  | ['.'] => (['.'], [])
  | '.' :: '/' :: body => (['.'], '/' :: body)
  | body => ([], body)

/-- A reversed body without its idle end. -/
def stripIdle : List Char → List Char
  | '/' :: rest => stripIdle rest
  | ['.'] => []
  | '.' :: '/' :: rest => stripIdle rest
  | body => body

/-- A reversed body without its last name and the slash before that. -/
def dropName (body : List Char) : List Char :=
  (body.dropWhile (· ≠ '/')).drop 1

/-- The path without its last name; the root and the empty path have no parent. -/
def parent? (path : String) : Option String :=
  let (head, body) := headBody path.toList
  match stripIdle body.reverse with
  | [] => if head = ['.'] then some "" else none
  | last => some (String.ofList (head ++ (stripIdle (dropName last)).reverse))

/-- Stripping never lengthens. -/
theorem length_stripIdle_le (body : List Char) :
    (stripIdle body).length ≤ body.length := by
  fun_induction stripIdle body with
  | case1 rest ih => simp only [List.length_cons]; omega
  | case2 => simp
  | case3 rest ih => simp only [List.length_cons]; omega
  | case4 body => exact Nat.le_refl _

/-- Without its last name, a body is shorter. -/
theorem length_dropName_lt {body : List Char} (h : body ≠ []) :
    (dropName body).length < body.length := by
  have hle : (body.dropWhile (· ≠ '/')).length ≤ body.length :=
    (List.dropWhile_sublist _).length_le
  have hpos : 0 < body.length := List.length_pos_iff.mpr h
  rw [dropName, List.length_drop]
  omega

/-- Head and body together are the path. -/
theorem length_headBody (cs : List Char) :
    (headBody cs).1.length + (headBody cs).2.length = cs.length := by
  fun_cases headBody cs <;> simp +arith

/-- A parent is shorter. -/
theorem length_parent?_lt {path up : String} (h : parent? path = some up) :
    up.toList.length < path.toList.length := by
  have htotal := length_headBody path.toList
  simp only [parent?] at h
  have hstrip := length_stripIdle_le (headBody path.toList).2.reverse
  rw [List.length_reverse] at hstrip
  split at h
  · split at h
    · next hhead =>
        cases h
        have : (headBody path.toList).1.length = 1 := by rw [hhead]; rfl
        simp only [String.toList_empty, List.length_nil]
        omega
    · cases h
  · next hne =>
      cases h
      have hdrop := length_dropName_lt hne
      have hidle := length_stripIdle_le (dropName (stripIdle (headBody path.toList).2.reverse))
      simp only [String.toList_ofList, List.length_append, List.length_reverse]
      omega

/-- A path and its parents, the path first, up to the root or the first name. -/
def ancestors (path : String) : List String :=
  if path.isEmpty then []
  else
    path ::
      match _h : parent? path with
      | some up => ancestors up
      | none => []
termination_by path.toList.length
decreasing_by exact length_parent?_lt _h

end Stencil.Path
