import Stencil.Files.Job
import Stencil.Proofs.Files.Growth

/-! # The history of a run

    A run of a job passes through a list of disks (`Job.history`), and some of its
    requests write a file (`Job.writes`) or read one (`Job.reads`).  Each disk of the
    list has all that the ones before it have (`pairwise_history`).

    The files at the end are those at the start and the written ones: nothing
    else appears (`written_of_appears`), and every write stands in full where its
    path leads (`appears_of_written`). -/

namespace Stencil.Files

instance : DecidableEq Entry
  | .directory, .directory => isTrue rfl
  | .directory, .file _ => isFalse (by simp)
  | .file _, .directory => isFalse (by simp)
  | .file content, .file content' =>
      match ByteArray.decEq content content' with
      | isTrue h => isTrue (congrArg Entry.file h)
      | isFalse h => isFalse fun hfile => h (Entry.file.inj hfile)

/-- A file that a run writes. -/
structure Write where
  path : String
  text : String
deriving DecidableEq, Repr

/-- Whether a disk has a written file, with its whole text, at a location. -/
def Disk.Holds (disk : Disk) (write : Write) (place : Location) : Prop :=
  disk.Leads write.path place ∧ disk.entry? place = some (.file write.text.toUTF8)

theorem Disk.Grows.holds {disk later : Disk} (h : Grows disk later) {write : Write}
    {place : Location} (hholds : disk.Holds write place) : later.Holds write place :=
  ⟨h.leads hholds.1, h.entries _ _ hholds.2⟩

/-- A created file is held by the disk, where there was nothing before; and all
    other entries were there. -/
theorem Disk.holds_of_create {disk later : Disk} {path text : String}
    (h : disk.create path text.toUTF8 = .ok later) :
    ∃ place : Location, disk.entry? place = none ∧ later.Holds ⟨path, text⟩ place
      ∧ ∀ place' : Location, place' ≠ place → later.entry? place' = disk.entry? place' := by
  have hgrows := grows_create h
  obtain ⟨place, hleads, hfree, -, rfl⟩ := of_create h
  have hne := ne_root_of_free hfree
  refine ⟨place, hfree, ⟨hgrows.leads hleads, entry?_put_self hne disk _⟩, ?_⟩
  intro place' hplace'
  rw [entry?_put, if_neg hplace']
  by_cases hroot : place' = []
  · subst hroot
    rw [if_pos rfl]
    rfl
  · rw [if_neg hroot]

/-- A directory that is made is no file; and all other entries were there. -/
theorem Disk.entry?_of_makeDirectory {disk later : Disk} {path : String}
    (h : disk.makeDirectory path = .ok later) {place : Location} {content : ByteArray}
    (hfile : later.entry? place = some (.file content)) :
    disk.entry? place = some (.file content) := by
  obtain ⟨made, -, -, rfl⟩ := of_makeDirectory h
  rcases eq_of_entry?_put hfile with hthere | ⟨-, hentry⟩
  · exact hthere
  · cases hentry

namespace Job

variable {α β : Type}

/-! ## Histories -/

/-- The disks that a run passes through: the one before each request, and the one
    at the end. -/
def history (disk : Disk) : Job α → List Disk
  | .done _ => [disk]
  | .look path next => disk :: (next ((disk.find path).toOption.map Entry.kind)).history disk
  | .read path next => disk :: (next (disk.read path)).history disk
  | .makeDirectory path next =>
      disk :: (next (settle disk (disk.makeDirectory path)).1).history
        (settle disk (disk.makeDirectory path)).2
  | .create path text next =>
      disk :: (next (settle disk (disk.create path text.toUTF8)).1).history
        (settle disk (disk.create path text.toUTF8)).2
  | .here next => disk :: (next (absolute disk.here)).history disk

/-- The files that a run writes, in order. -/
def writes (disk : Disk) : Job α → List Write
  | .done _ => []
  | .look path next => (next ((disk.find path).toOption.map Entry.kind)).writes disk
  | .read path next => (next (disk.read path)).writes disk
  | .makeDirectory path next =>
      (next (settle disk (disk.makeDirectory path)).1).writes
        (settle disk (disk.makeDirectory path)).2
  | .create path text next =>
      match disk.create path text.toUTF8 with
      | .ok later => ⟨path, text⟩ :: (next (.ok ())).writes later
      | .error reason => (next (.error reason)).writes disk
  | .here next => (next (absolute disk.here)).writes disk

/-- The paths of the files that a run asks to read, in order. -/
def reads (disk : Disk) : Job α → List String
  | .done _ => []
  | .look path next => (next ((disk.find path).toOption.map Entry.kind)).reads disk
  | .read path next => path :: (next (disk.read path)).reads disk
  | .makeDirectory path next =>
      (next (settle disk (disk.makeDirectory path)).1).reads
        (settle disk (disk.makeDirectory path)).2
  | .create path text next =>
      (next (settle disk (disk.create path text.toUTF8)).1).reads
        (settle disk (disk.create path text.toUTF8)).2
  | .here next => (next (absolute disk.here)).reads disk

theorem grows_settle {disk : Disk} {answer : Except Refusal Disk}
    (h : ∀ later : Disk, answer = .ok later → disk.Grows later) :
    disk.Grows (settle disk answer).2 := by
  cases answer with
  | ok later => exact h later rfl
  | error reason => exact Disk.Grows.refl disk

/-- Every disk of a history has grown from the first one. -/
theorem grows_of_mem_history {disk later : Disk} {job : Job α}
    (h : later ∈ job.history disk) : disk.Grows later := by
  induction job generalizing disk with
  | done result => exact List.mem_singleton.mp h ▸ Disk.Grows.refl disk
  | look path next ih =>
      rcases List.mem_cons.mp h with rfl | hmem
      · exact Disk.Grows.refl _
      · exact ih _ hmem
  | read path next ih =>
      rcases List.mem_cons.mp h with rfl | hmem
      · exact Disk.Grows.refl _
      · exact ih _ hmem
  | makeDirectory path next ih =>
      rcases List.mem_cons.mp h with rfl | hmem
      · exact Disk.Grows.refl _
      · exact (grows_settle fun _ => Disk.grows_makeDirectory).trans (ih _ hmem)
  | create path text next ih =>
      rcases List.mem_cons.mp h with rfl | hmem
      · exact Disk.Grows.refl _
      · exact (grows_settle fun _ => Disk.grows_create).trans (ih _ hmem)
  | here next ih =>
      rcases List.mem_cons.mp h with rfl | hmem
      · exact Disk.Grows.refl _
      · exact ih _ hmem

/-- Each disk of a history has all that the ones before it have. -/
theorem pairwise_history (disk : Disk) (job : Job α) :
    (job.history disk).Pairwise Disk.Grows := by
  induction job generalizing disk with
  | done result => exact List.pairwise_singleton ..
  | look path next ih => exact List.Pairwise.cons (fun _ => grows_of_mem_history) (ih _ _)
  | read path next ih => exact List.Pairwise.cons (fun _ => grows_of_mem_history) (ih _ _)
  | makeDirectory path next ih =>
      exact List.Pairwise.cons (fun _ hmem => (grows_settle fun _ =>
        Disk.grows_makeDirectory).trans (grows_of_mem_history hmem)) (ih _ _)
  | create path text next ih =>
      exact List.Pairwise.cons (fun _ hmem => (grows_settle fun _ =>
        Disk.grows_create).trans (grows_of_mem_history hmem)) (ih _ _)
  | here next ih => exact List.Pairwise.cons (fun _ => grows_of_mem_history) (ih _ _)

/-- A history ends with the disk that the run leaves. -/
theorem run_mem_history (disk : Disk) (job : Job α) : (job.run disk).2 ∈ job.history disk := by
  induction job generalizing disk with
  | done result => exact List.mem_singleton.mpr rfl
  | look path next ih => exact List.mem_cons_of_mem _ (ih _ _)
  | read path next ih => exact List.mem_cons_of_mem _ (ih _ _)
  | makeDirectory path next ih => exact List.mem_cons_of_mem _ (ih _ _)
  | create path text next ih => exact List.mem_cons_of_mem _ (ih _ _)
  | here next ih => exact List.mem_cons_of_mem _ (ih _ _)

theorem grows_run (disk : Disk) (job : Job α) : disk.Grows (job.run disk).2 :=
  grows_of_mem_history (run_mem_history disk job)

/-! ## Writes -/

/-- A file at the end was there at the start or was written. -/
theorem written_of_appears {disk : Disk} {job : Job α} {place : Location}
    {content : ByteArray} (h : Disk.entry? (job.run disk).2 place = some (.file content)) :
    disk.entry? place = some (.file content)
      ∨ ∃ write ∈ job.writes disk, (job.run disk).2.Holds write place := by
  induction job generalizing disk with
  | done result => exact Or.inl h
  | look path next ih => exact ih _ h
  | read path next ih => exact ih _ h
  | makeDirectory path next ih =>
      rcases ih _ h with hthere | hwritten
      · -- the directory just made is no file
        refine Or.inl ?_
        cases hmake : disk.makeDirectory path with
        | ok later =>
            rw [hmake] at hthere
            exact Disk.entry?_of_makeDirectory hmake hthere
        | error reason =>
            rw [hmake] at hthere
            exact hthere
      · exact Or.inr hwritten
  | create path text next ih =>
      simp only [run, writes] at h ⊢
      cases hcreate : disk.create path text.toUTF8 with
      | error reason =>
          rw [hcreate] at h
          exact ih _ h
      | ok later =>
          rw [hcreate] at h
          rcases ih _ h with hthere | ⟨write, hmem, hholds⟩
          · obtain ⟨place', -, hholds, hother⟩ := Disk.holds_of_create hcreate
            by_cases hplace : place = place'
            · -- the file is the one just written
              subst hplace
              exact Or.inr ⟨_, List.mem_cons_self .., (grows_run later _).holds hholds⟩
            · rw [← hother place hplace]
              exact Or.inl hthere
          · exact Or.inr ⟨write, List.mem_cons_of_mem _ hmem, hholds⟩
  | here next ih => exact ih _ h

/-- A written file stands at the end, in full, where there was nothing at the
    start. -/
theorem appears_of_written {disk : Disk} {job : Job α} {write : Write}
    (h : write ∈ job.writes disk) :
    ∃ place : Location, disk.entry? place = none ∧ (job.run disk).2.Holds write place := by
  induction job generalizing disk with
  | done result => cases h
  | look path next ih => exact ih _ h
  | read path next ih => exact ih _ h
  | makeDirectory path next ih =>
      obtain ⟨place, hfree, hholds⟩ := ih _ h
      exact ⟨place, (grows_settle fun _ => Disk.grows_makeDirectory).free hfree, hholds⟩
  | create path text next ih =>
      simp only [run, writes] at h ⊢
      cases hcreate : disk.create path text.toUTF8 with
      | error reason =>
          rw [hcreate] at h
          exact ih _ h
      | ok later =>
          rw [hcreate] at h
          rcases List.mem_cons.mp h with rfl | hmem
          · obtain ⟨place, hfree, hholds, -⟩ := Disk.holds_of_create hcreate
            exact ⟨place, hfree, (grows_run later _).holds hholds⟩
          · obtain ⟨place, hfree, hholds⟩ := ih _ hmem
            exact ⟨place, (Disk.grows_create hcreate).free hfree, hholds⟩
  | here next ih => exact ih _ h

/-- What two jobs write one after the other. -/
theorem writes_bind (disk : Disk) (job : Job α) (f : α → Job β) :
    (job >>= f).writes disk
      = job.writes disk ++ (f (job.run disk).1).writes (job.run disk).2 := by
  show (job.andThen f).writes disk = _
  induction job generalizing disk with
  | done result => rfl
  | look path next ih => exact ih _ _
  | read path next ih => exact ih _ _
  | makeDirectory path next ih => exact ih _ _
  | create path text next ih =>
      simp only [andThen, writes, run]
      cases disk.create path text.toUTF8 with
      | ok later => exact congrArg (_ :: ·) (ih _ _)
      | error reason => exact ih _ _
  | here next ih => exact ih _ _

/-- A run that leaves the disk as it is writes nothing. -/
theorem writes_eq_nil_of_run_eq {disk : Disk} {job : Job α} (h : (job.run disk).2 = disk) :
    job.writes disk = [] := by
  rw [List.eq_nil_iff_forall_not_mem]
  intro write hwrite
  obtain ⟨place, hfree, -, hentry⟩ := appears_of_written hwrite
  rw [h, hfree] at hentry
  cases hentry

/-- What two jobs read one after the other. -/
theorem reads_bind (disk : Disk) (job : Job α) (f : α → Job β) :
    (job >>= f).reads disk
      = job.reads disk ++ (f (job.run disk).1).reads (job.run disk).2 := by
  show (job.andThen f).reads disk = _
  induction job generalizing disk with
  | done result => rfl
  | look path next ih => exact ih _ _
  | read path next ih => exact congrArg (path :: ·) (ih _ _)
  | makeDirectory path next ih => exact ih _ _
  | create path text next ih => exact ih _ _
  | here next ih => exact ih _ _

end Job

end Stencil.Files
