import Stencil.Files.Disk

/-! # Jobs

    A job is a finite sequence of file requests, each next one chosen by the
    answers so far.  There are five requests: look what kind of entry stands at
    a path, read a file, make a directory, create a file, ask for the working
    directory.  No request changes or removes what is there.

    A job can be run on a disk, which gives its result and the disk
    afterwards. -/

namespace Stencil.Files

/-- A sequence of file requests with a result. -/
inductive Job (α : Type) where
  | done (result : α)
  | look (path : String) (next : Option Kind → Job α)
  | read (path : String) (next : Except Refusal ByteArray → Job α)
  | makeDirectory (path : String) (next : Except Refusal Unit → Job α)
  | create (path text : String) (next : Except Refusal Unit → Job α)
  | here (next : String → Job α)

namespace Job

variable {α β : Type}

/-- Goes on with the result of a job. -/
def andThen (job : Job α) (f : α → Job β) : Job β :=
  match job with
  | .done result => f result
  | .look path next => .look path fun answer => (next answer).andThen f
  | .read path next => .read path fun answer => (next answer).andThen f
  | .makeDirectory path next => .makeDirectory path fun answer => (next answer).andThen f
  | .create path text next => .create path text fun answer => (next answer).andThen f
  | .here next => .here fun answer => (next answer).andThen f

instance : Monad Job where
  pure := done
  bind := andThen

/-! ## Running -/

/-- A state after a request that may change it, with the answer. -/
def settle {σ : Type} (state : σ) : Except Refusal σ → Except Refusal Unit × σ
  | .ok state' => (.ok (), state')
  | .error refusal => (.error refusal, state)

/-- The absolute path to a location. -/
def absolute (place : Location) : String :=
  "/" ++ "/".intercalate place

/-- Runs a job on a disk. -/
def run (disk : Disk) : Job α → α × Disk
  | .done result => (result, disk)
  | .look path next => (next ((disk.find path).toOption.map Entry.kind)).run disk
  | .read path next => (next (disk.read path)).run disk
  | .makeDirectory path next =>
      let (answer, disk') := settle disk (disk.makeDirectory path)
      (next answer).run disk'
  | .create path text next =>
      let (answer, disk') := settle disk (disk.create path text.toUTF8)
      (next answer).run disk'
  | .here next => (next (absolute disk.here)).run disk

/-- Running a job and then another one is running the second on the disk that the
    first leaves. -/
theorem run_bind (disk : Disk) (job : Job α) (f : α → Job β) :
    (job >>= f).run disk = (f (job.run disk).1).run (job.run disk).2 := by
  show (job.andThen f).run disk = _
  induction job generalizing disk with
  | done result => rfl
  | look path next ih => exact ih _ _
  | read path next ih => exact ih _ _
  | makeDirectory path next ih => exact ih _ _
  | create path text next ih => exact ih _ _
  | here next ih => exact ih _ _

/-- A finished job leaves the disk as it is. -/
theorem run_pure (disk : Disk) (result : α) :
    (pure result : Job α).run disk = (result, disk) := rfl

/-! ## Single requests -/

/-- The kind of the entry at a path; nothing if it cannot be reached. -/
def kindOf (path : String) : Job (Option Kind) := look path done

/-- Whether there is something at a path. -/
def isThere (path : String) : Job Bool := return (← kindOf path).isSome

/-- Whether there is a directory at a path. -/
def isDirectory (path : String) : Job Bool := return (← kindOf path) == some .directory

/-- Whether there is a file at a path. -/
def isFile (path : String) : Job Bool := return (← kindOf path) == some .file

/-- Decodes the content of a file. -/
def decode (content : ByteArray) : Except Refusal String :=
  match String.fromUTF8? content with
  | some text => .ok text
  | none => .error .notText

/-- The text of a file. -/
def readText (path : String) : Job (Except Refusal String) :=
  read path fun answer => done (answer.bind decode)

/-- Makes a directory. -/
def makeOne (path : String) : Job (Except Refusal Unit) := makeDirectory path done

/-- Creates a file. -/
def createFile (path text : String) : Job (Except Refusal Unit) := create path text done

/-- The path of the working directory. -/
def workingDirectory : Job String := here done

/-! ## Directories with their parents -/

/-- Makes a directory, given its path and then those of its parents; parents are
    made where they are missing, and a directory that is there already will
    do. -/
def makeChain : List String → Job (Except Refusal Unit)
  | [] => return .ok ()
  | path :: up => do
      match ← makeOne path with
      | .ok () => return .ok ()
      | .error .missing =>
          match ← makeChain up with
          | .error refusal => return .error refusal
          | .ok () =>
              -- the parents are there now, so this is the last try
              match ← makeOne path with
              | .ok () => return .ok ()
              | .error refusal =>
                  return if ← isDirectory path then .ok () else .error refusal
      | .error refusal =>
          return if ← isDirectory path then .ok () else .error refusal

/-- Makes the directory at a path and the parents it lacks. -/
def makeDirectories (path : String) : Job (Except Refusal Unit) :=
  makeChain (Path.ancestors path)

end Job

end Stencil.Files
