import Stencil.Proofs.Files.Directories

/-! # Confined jobs

    A job is confined if it asks for directories only at paths of one kind, the ways,
    and for files only at paths of another, the targets (`Job.Confined`).  All that a
    run of it adds to a disk, whether it comes to its end or breaks off, then stands
    where such paths lead (`Confined.addsAt`). -/

namespace Stencil.Files

variable {ways targets : String → Prop}

/-! ## What is added -/

/-- Whether all that a later disk has more are directories where ways lead, and what
    stands where targets lead. -/
def Disk.AddsAt (ways targets : String → Prop) (disk later : Disk) : Prop :=
  ∀ (place : Location) (entry : Entry), later.entry? place = some entry →
    disk.entry? place = some entry
      ∨ (entry = .directory
          ∧ ∃ path : String, ways path ∧ place = follow (disk.startOf path) (Path.names path))
      ∨ ∃ path : String, targets path ∧ place = follow (disk.startOf path) (Path.names path)

namespace Disk

variable {disk later last : Disk} {path : String}

theorem AddsAt.refl (disk : Disk) : AddsAt ways targets disk disk :=
  fun _ _ h => Or.inl h

theorem AddsAt.trans (h : AddsAt ways targets disk later) (hgrows : Grows disk later)
    (h' : AddsAt ways targets later last) : AddsAt ways targets disk last := by
  intro place entry hentry
  have hstart := hgrows.startOf
  rcases h' place entry hentry with
    hlater | ⟨hdirectory, path, hpath, hplace⟩ | ⟨path, hpath, hplace⟩
  · exact h place entry hlater
  · exact Or.inr (Or.inl ⟨hdirectory, path, hpath, hstart path ▸ hplace⟩)
  · exact Or.inr (Or.inr ⟨path, hpath, hstart path ▸ hplace⟩)

theorem addsAt_makeDirectory (hpath : ways path) (h : disk.makeDirectory path = .ok later) :
    AddsAt ways targets disk later := by
  obtain ⟨made, hleads, -, rfl⟩ := of_makeDirectory h
  intro place entry hentry
  rcases eq_of_entry?_put hentry with hthere | ⟨rfl, rfl⟩
  · exact Or.inl hthere
  · exact Or.inr (Or.inl ⟨rfl, path, hpath, hleads.eq_follow⟩)

theorem addsAt_create (hpath : targets path) {content : ByteArray}
    (h : disk.create path content = .ok later) : AddsAt ways targets disk later := by
  obtain ⟨made, hleads, -, -, rfl⟩ := of_create h
  intro place entry hentry
  rcases eq_of_entry?_put hentry with hthere | ⟨rfl, rfl⟩
  · exact Or.inl hthere
  · exact Or.inr (Or.inr ⟨path, hpath, hleads.eq_follow⟩)

end Disk

/-! ## Jobs -/

namespace Job

variable {α β : Type}

theorem bind_pure (job : Job α) : job >>= pure = job := by
  show job.andThen done = job
  induction job with
  | done result => rfl
  | look path next ih => exact congrArg (look path) (funext ih)
  | read path next ih => exact congrArg (read path) (funext ih)
  | makeDirectory path next ih => exact congrArg (makeDirectory path) (funext ih)
  | create path text next ih => exact congrArg (create path text) (funext ih)
  | here next ih => exact congrArg here (funext ih)

theorem bind_assoc {γ : Type} (job : Job α) (f : α → Job β) (g : β → Job γ) :
    job >>= f >>= g = job >>= fun a => f a >>= g := by
  show (job.andThen f).andThen g = job.andThen fun a => (f a).andThen g
  induction job with
  | done result => rfl
  | look path next ih => exact congrArg (look path) (funext ih)
  | read path next ih => exact congrArg (read path) (funext ih)
  | makeDirectory path next ih => exact congrArg (makeDirectory path) (funext ih)
  | create path text next ih => exact congrArg (create path text) (funext ih)
  | here next ih => exact congrArg here (funext ih)

/-- What jobs do does not depend on how they are put together. -/
instance : LawfulMonad Job :=
  LawfulMonad.mk' Job bind_pure (fun _ _ => rfl) bind_assoc

/-- Whether a job makes directories at ways only, and creates files at targets only. -/
def Confined (ways targets : String → Prop) : Job α → Prop
  | .done _ => True
  | .look _ next => ∀ answer, (next answer).Confined ways targets
  | .read _ next => ∀ answer, (next answer).Confined ways targets
  | .makeDirectory path next => ways path ∧ ∀ answer, (next answer).Confined ways targets
  | .create path _ next => targets path ∧ ∀ answer, (next answer).Confined ways targets
  | .here next => ∀ answer, (next answer).Confined ways targets

/-- Two confined jobs one after the other are confined. -/
theorem Confined.bind {job : Job α} {f : α → Job β} (h : job.Confined ways targets)
    (hf : ∀ a, (f a).Confined ways targets) : (job >>= f).Confined ways targets := by
  show (job.andThen f).Confined ways targets
  induction job with
  | done result => exact hf result
  | look path next ih => exact fun answer => ih answer (h answer)
  | read path next ih => exact fun answer => ih answer (h answer)
  | makeDirectory path next ih => exact ⟨h.1, fun answer => ih answer (h.2 answer)⟩
  | create path text next ih => exact ⟨h.1, fun answer => ih answer (h.2 answer)⟩
  | here next ih => exact fun answer => ih answer (h answer)

/-- A job that only makes directories is confined if their paths are ways. -/
theorem MakesOnly.confined {paths : List String} {job : Job α} (h : job.MakesOnly paths)
    (hways : ∀ path ∈ paths, ways path) : job.Confined ways targets := by
  induction job with
  | done result => exact trivial
  | look path next ih => exact fun answer => ih answer (h answer)
  | read path next ih => exact fun answer => ih answer (h answer)
  | makeDirectory path next ih => exact ⟨hways path h.1, fun answer => ih answer (h.2 answer)⟩
  | create path text next _ => exact absurd h id
  | here next ih => exact fun answer => ih answer (h answer)

/-- A run of a confined job adds directories at ways and files at targets. -/
theorem Confined.addsAt {job : Job α} (h : job.Confined ways targets) (disk : Disk) :
    Disk.AddsAt ways targets disk (job.run disk).2 := by
  induction job generalizing disk with
  | done result => exact Disk.AddsAt.refl disk
  | look path next ih => exact ih _ (h _) _
  | read path next ih => exact ih _ (h _) _
  | makeDirectory path next ih =>
      have hrest := ih _ (h.2 (settle disk (disk.makeDirectory path)).1)
        (settle disk (disk.makeDirectory path)).2
      refine Disk.AddsAt.trans ?_ (grows_settle fun _ => Disk.grows_makeDirectory) hrest
      cases hmake : disk.makeDirectory path with
      | ok later => exact Disk.addsAt_makeDirectory h.1 hmake
      | error reason => exact Disk.AddsAt.refl disk
  | create path text next ih =>
      have hrest := ih _ (h.2 (settle disk (disk.create path text.toUTF8)).1)
        (settle disk (disk.create path text.toUTF8)).2
      refine Disk.AddsAt.trans ?_ (grows_settle fun _ => Disk.grows_create) hrest
      cases hcreate : disk.create path text.toUTF8 with
      | ok later => exact Disk.addsAt_create h.1 hcreate
      | error reason => exact Disk.AddsAt.refl disk
  | here next ih => exact ih _ (h _) _

end Job

end Stencil.Files
