import Stencil.Files.Links
import Stencil.Proofs.Files.Growth

/-! # Disks without links, and disks with them

    On a disk without links every path leads where it leads on the disk itself, and so
    every job does what it does there (`runLinked_ofDisk`).

    With links, too, a job only adds to a disk: what stands there stays as it is, and
    so do the links (`grows_runLinked`). -/

namespace Stencil.Files

namespace LinkedDisk

variable {disk : Disk}

/-! ## Without links -/

/-- Without links, names are followed one by one up to the last. -/
theorem through_ofDisk (disk : Disk) (followLast : Bool)
    (onLink : Location → List String → Except Refusal Target) (place : Location)
    (names : List String) :
    (ofDisk disk).through followLast onLink place names
      = match names.getLast? with
        | none => .ok (.directory place)
        | some last => do
            let parent ← names.dropLast.foldlM disk.enter place
            if last = "." || last = ".." then return .directory (← disk.enter parent last)
            else return .name parent last := by
  induction names generalizing place with
  | nil => rfl
  | cons name rest ih =>
      cases rest with
      | nil =>
          show (if (true && !(name = "." || name = "..")) = true then _ else _)
            = if (name = "." || name = "..") = true then _ else _
          by_cases hdots : (name = "." || name = "..") = true
          · rw [if_pos hdots, hdots, if_neg (by decide)]
            rfl
          · rw [if_neg hdots, Bool.eq_false_iff.mpr hdots, if_pos (by decide)]
            rfl
      | cons next rest =>
          rw [List.dropLast_cons_cons, List.foldlM_cons, List.getLast?_cons_cons]
          show (disk.enter place name >>= fun place' =>
            (ofDisk disk).through followLast onLink place' (next :: rest)) = _
          cases disk.enter place name with
          | error reason =>
              rw [List.getLast?_cons]
              rfl
          | ok place' => exact ih place'

/-- Without links, a path leads where it leads on the disk. -/
theorem target_ofDisk (disk : Disk) (followLast : Bool) (path : String) :
    (ofDisk disk).target followLast path = disk.target path := by
  rw [target, Disk.target]
  show (disk.begin path >>= fun start => _) = _
  cases disk.begin path with
  | error reason => rfl
  | ok start => exact through_ofDisk disk followLast _ start (Path.names path)

theorem find_ofDisk (disk : Disk) (path : String) :
    (ofDisk disk).find path = disk.find path := by
  rw [find, target_ofDisk]
  rfl

theorem read_ofDisk (disk : Disk) (path : String) :
    (ofDisk disk).read path = disk.read path := by
  rw [read, find_ofDisk]
  rfl

theorem made_ofDisk (target : Target) (disk disk' : Disk) :
    (ofDisk disk).made target disk' = .ok (ofDisk disk') := by
  cases target <;> rfl

theorem makeDirectory_ofDisk (disk : Disk) (path : String) :
    (ofDisk disk).makeDirectory path = (disk.makeDirectory path).map ofDisk := by
  rw [makeDirectory, target_ofDisk, Disk.makeDirectory]
  cases disk.target path with
  | error reason => rfl
  | ok target =>
      show (disk.makeDirectoryAt target >>= (ofDisk disk).made target)
        = (disk.makeDirectoryAt target).map ofDisk
      cases disk.makeDirectoryAt target with
      | error reason => rfl
      | ok disk' => exact made_ofDisk target disk disk'

theorem create_ofDisk (disk : Disk) (path : String) (content : ByteArray) :
    (ofDisk disk).create path content = (disk.create path content).map ofDisk := by
  rw [create, target_ofDisk, Disk.create]
  cases disk.target path with
  | error reason => rfl
  | ok target =>
      show (disk.createAt path content target >>= (ofDisk disk).made target)
        = (disk.createAt path content target).map ofDisk
      cases disk.createAt path content target with
      | error reason => rfl
      | ok disk' => exact made_ofDisk target disk disk'

/-! ## With links -/

/-- Whether a disk with links has all that another one has, and the same links. -/
structure Grows (linked later : LinkedDisk) : Prop where
  disk : linked.disk.Grows later.disk
  links : later.links = linked.links

theorem Grows.refl (linked : LinkedDisk) : linked.Grows linked :=
  ⟨Disk.Grows.refl _, rfl⟩

theorem Grows.trans {linked mid later : LinkedDisk} (h : linked.Grows mid)
    (h' : mid.Grows later) : linked.Grows later :=
  ⟨h.disk.trans h'.disk, h'.links.trans h.links⟩

variable {linked later : LinkedDisk} {path : String} {content : ByteArray}

/-- What is made is put on the disk below the links. -/
theorem of_made {target : Target} {disk : Disk} (h : linked.made target disk = .ok later) :
    later = { linked with disk } := by
  cases target with
  | directory place => exact (Except.ok.inj h).symm
  | name parent last =>
      rw [made] at h
      cases hlink : linked.link? (parent ++ [last]) with
      | some link => rw [hlink] at h; cases h
      | none => rw [hlink] at h; exact (Except.ok.inj h).symm

theorem grows_makeDirectory (h : linked.makeDirectory path = .ok later) :
    linked.Grows later := by
  rw [makeDirectory] at h
  obtain ⟨target, -, h⟩ := Disk.eq_ok_of_bind h
  obtain ⟨disk, hdisk, h⟩ := Disk.eq_ok_of_bind h
  obtain ⟨parent, last, -, -, hfree, rfl⟩ := Disk.of_makeDirectoryAt hdisk
  obtain rfl := of_made h
  exact ⟨Disk.grows_put hfree _, rfl⟩

theorem grows_create (h : linked.create path content = .ok later) : linked.Grows later := by
  rw [create] at h
  obtain ⟨target, -, h⟩ := Disk.eq_ok_of_bind h
  obtain ⟨disk, hdisk, h⟩ := Disk.eq_ok_of_bind h
  obtain ⟨parent, last, -, -, hfree, -, rfl⟩ := Disk.of_createAt hdisk
  obtain rfl := of_made h
  exact ⟨Disk.grows_put hfree _, rfl⟩

theorem grows_settle {linked : LinkedDisk} {answer : Except Refusal LinkedDisk}
    (h : ∀ later : LinkedDisk, answer = .ok later → linked.Grows later) :
    linked.Grows (Job.settle linked answer).2 := by
  cases answer with
  | ok later => exact h later rfl
  | error reason => exact Grows.refl linked

end LinkedDisk

namespace Job

open LinkedDisk (ofDisk)

variable {α β : Type}

/-! ## Jobs -/

/-- With links, too, running a job and then another one is running the second on the disk
    that the first leaves. -/
theorem runLinked_bind (linked : LinkedDisk) (job : Job α) (f : α → Job β) :
    (job >>= f).runLinked linked
      = (f (job.runLinked linked).1).runLinked (job.runLinked linked).2 := by
  show (job.andThen f).runLinked linked = _
  induction job generalizing linked with
  | done result => rfl
  | look path next ih => exact ih _ _
  | read path next ih => exact ih _ _
  | makeDirectory path next ih => exact ih _ _
  | create path text next ih => exact ih _ _
  | here next ih => exact ih _ _

theorem settle_ofDisk (disk : Disk) (answer : Except Refusal Disk) :
    settle (ofDisk disk) (answer.map ofDisk)
      = ((settle disk answer).1, ofDisk (settle disk answer).2) := by
  cases answer <;> rfl

/-- **Without links.**  A job does on a disk without links what it does on the disk. -/
theorem runLinked_ofDisk (disk : Disk) (job : Job α) :
    job.runLinked (ofDisk disk) = ((job.run disk).1, ofDisk (job.run disk).2) := by
  induction job generalizing disk with
  | done result => rfl
  | look path next ih =>
      rw [runLinked, LinkedDisk.find_ofDisk]
      exact ih _ disk
  | read path next ih =>
      rw [runLinked, LinkedDisk.read_ofDisk]
      exact ih _ disk
  | makeDirectory path next ih =>
      rw [runLinked, LinkedDisk.makeDirectory_ofDisk, settle_ofDisk]
      exact ih _ _
  | create path text next ih =>
      rw [runLinked, LinkedDisk.create_ofDisk, settle_ofDisk]
      exact ih _ _
  | here next ih => exact ih _ disk

/-- **With links.**  Whatever a job does, nothing that stands on a disk changes, and no
    link does. -/
theorem grows_runLinked (linked : LinkedDisk) (job : Job α) :
    linked.Grows (job.runLinked linked).2 := by
  induction job generalizing linked with
  | done result => exact LinkedDisk.Grows.refl linked
  | look path next ih => exact ih _ linked
  | read path next ih => exact ih _ linked
  | makeDirectory path next ih =>
      exact (LinkedDisk.grows_settle fun _ => LinkedDisk.grows_makeDirectory).trans (ih _ _)
  | create path text next ih =>
      exact (LinkedDisk.grows_settle fun _ => LinkedDisk.grows_create).trans (ih _ _)
  | here next ih => exact ih _ linked

end Job

end Stencil.Files
