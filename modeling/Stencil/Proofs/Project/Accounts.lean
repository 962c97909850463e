import Stencil.Project.Server
import Stencil.Proofs.Project.Generation
import Stencil.Proofs.Template.LastNames

/-! # Accounts of new files

    A run that lays out files below a root says of each path that its file was
    written, or that it was skipped.  The two lists are an account of the run
    (`Accounts`) if they have every path once, what was written has appeared, what was
    skipped is there, and nothing else was written.

    An account is kept path by path: a path is skipped (`Accounts.skip`) or written
    (`Accounts.write`).  So the reports on a module and on a server are accounts
    (`accounts_of_generateOf`, `accounts_of_copyServerFiles`). -/

namespace Stencil

namespace Files.Disk

/-- Whether a later disk has nothing more but directories. -/
structure AddsDirectories (disk later : Disk) : Prop where
  grows : Grows disk later
  files : ∀ (place : Location) (content : ByteArray),
    later.entry? place = some (.file content) → disk.entry? place = some (.file content)

theorem AddsDirectories.refl (disk : Disk) : AddsDirectories disk disk :=
  ⟨Grows.refl disk, fun _ _ h => h⟩

/-- Whether a file came to a disk: nothing was found at its path before, nothing stood at
    its place, and now it is there in full. -/
structure Appears (disk later : Disk) (write : Write) : Prop where
  missing : ∀ entry : Entry, disk.find write.path ≠ .ok entry
  stands : ∃ place : Location, disk.entry? place = none ∧ later.Holds write place
  reads : later.read write.path = .ok write.text.toUTF8

variable {disk later last : Disk} {path text : String}

theorem Grows.read (h : Grows disk later) {content : ByteArray}
    (hread : disk.read path = .ok content) : later.read path = .ok content := by
  rw [Disk.read, h.find (find_of_read hread)]
  rfl

/-- A created file has appeared. -/
theorem appears_of_create (h : disk.create path text.toUTF8 = .ok later) :
    Appears disk later ⟨path, text⟩ := by
  obtain ⟨hmissing, -, hread⟩ := find_of_create h
  obtain ⟨place, hfree, hholds, -⟩ := holds_of_create h
  exact ⟨hmissing, ⟨place, hfree, hholds⟩, hread⟩

/-- What appears between two disks appears between an earlier and a later one. -/
theorem Appears.of_grows {first : Disk} {write : Write} (h : Appears disk later write)
    (hbefore : Grows first disk) (hafter : Grows later last) : Appears first last write := by
  obtain ⟨place, hfree, hholds⟩ := h.stands
  exact ⟨fun entry hfind => h.missing entry (hbefore.find hfind),
    ⟨place, hbefore.free hfree, hafter.holds hholds⟩, hafter.read h.reads⟩

end Files.Disk

namespace Project

open Files (Disk Entry Job Location Write)
open Files.Disk (AddsDirectories Appears)

variable {root path text : String} {disk mid later final : Disk}

/-! ## Accounts -/

/-- Whether the written files, with their texts, and the skipped paths account for what
    became of some paths below a root. -/
structure Accounts (root : String) (paths : List String) (disk final : Disk)
    (written : List (String × String)) (skipped : List String) : Prop where
  in_order : (written.map Prod.fst).Sublist paths ∧ skipped.Sublist paths
  each_once : (written.map Prod.fst ++ skipped).Perm paths
  grows : Disk.Grows disk final
  appears : ∀ file ∈ written, Appears disk final ⟨Path.join root file.1, file.2⟩
  found : ∀ path ∈ skipped, ∃ entry : Entry, final.find (Path.join root path) = .ok entry
  nothing_else : ∀ (place : Location) (content : ByteArray),
    final.entry? place = some (.file content) → disk.entry? place = some (.file content)
      ∨ ∃ file ∈ written, final.Holds ⟨Path.join root file.1, file.2⟩ place

theorem Accounts.nil (root : String) (disk : Disk) : Accounts root [] disk disk [] [] where
  in_order := ⟨List.Sublist.slnil, List.Sublist.slnil⟩
  each_once := List.Perm.nil
  grows := Disk.Grows.refl disk
  appears := fun _ h => by cases h
  found := fun _ h => by cases h
  nothing_else := fun _ _ h => Or.inl h

section Paths

variable {paths skipped : List String} {written : List (String × String)} {entry : Entry}

/-- A path at which something is found is skipped. -/
theorem Accounts.skip (h : Accounts root paths mid final written skipped)
    (hmid : AddsDirectories disk mid) (hfind : mid.find (Path.join root path) = .ok entry) :
    Accounts root (path :: paths) disk final written (path :: skipped) where
  in_order := ⟨h.in_order.1.cons path, h.in_order.2.cons_cons path⟩
  each_once := List.perm_middle.trans (h.each_once.cons path)
  grows := hmid.grows.trans h.grows
  appears := fun file hfile => (h.appears file hfile).of_grows hmid.grows (Disk.Grows.refl final)
  found := by
    intro other hother
    rcases List.mem_cons.mp hother with rfl | hother
    · exact ⟨entry, h.grows.find hfind⟩
    · exact h.found other hother
  nothing_else := by
    intro place content hfile
    rcases h.nothing_else place content hfile with hthere | hwritten
    · exact Or.inl (hmid.files place content hthere)
    · exact Or.inr hwritten

/-- A path at which a file was created is written. -/
theorem Accounts.write (h : Accounts root paths later final written skipped)
    (hmid : AddsDirectories disk mid)
    (hcreate : mid.create (Path.join root path) text.toUTF8 = .ok later) :
    Accounts root (path :: paths) disk final ((path, text) :: written) skipped where
  in_order := ⟨h.in_order.1.cons_cons path, h.in_order.2.cons path⟩
  each_once := h.each_once.cons path
  grows := (hmid.grows.trans (Disk.grows_create hcreate)).trans h.grows
  appears := by
    intro file hfile
    rcases List.mem_cons.mp hfile with rfl | hfile
    · exact (Disk.appears_of_create hcreate).of_grows hmid.grows h.grows
    · exact (h.appears file hfile).of_grows (hmid.grows.trans (Disk.grows_create hcreate))
        (Disk.Grows.refl final)
  found := h.found
  nothing_else := by
    intro place content hfile
    rcases h.nothing_else place content hfile with hthere | ⟨file, hmem, hholds⟩
    · obtain ⟨place', -, hholds, hother⟩ := Disk.holds_of_create hcreate
      by_cases hplace : place = place'
      · -- the file is the one just created
        subst hplace
        exact Or.inr ⟨_, List.mem_cons_self .., h.grows.holds hholds⟩
      · rw [hother place hplace] at hthere
        exact Or.inl (hmid.files place content hthere)
    · exact Or.inr ⟨file, List.mem_cons_of_mem _ hmem, hholds⟩

/-- In the end something is found at every path. -/
theorem Accounts.find (h : Accounts root paths disk final written skipped) :
    ∀ path ∈ paths, ∃ entry : Entry, final.find (Path.join root path) = .ok entry := by
  intro path hpath
  rcases List.mem_append.mp (h.each_once.mem_iff.mpr hpath) with hwritten | hskipped
  · obtain ⟨file, hfile, rfl⟩ := List.mem_map.mp hwritten
    exact ⟨_, Disk.find_of_read (h.appears file hfile).reads⟩
  · exact h.found path hskipped

/-! ## One file -/

/-- The disk before a new file is created has directories more at most. -/
theorem addsDirectories_makeParent (disk : Disk) (path : String) :
    AddsDirectories disk ((makeParent path).run.run disk).2 :=
  ⟨Job.grows_run disk _, fun _ _ h => (makesOnly_makeParent path).file h⟩

/-- A new file is written or skipped, which goes into the account. -/
theorem Accounts.newFile {outcome : WriteOutcome}
    (hwrite : (writeNewFile root path text).run.run disk = (.ok outcome, later))
    (h : Accounts root paths later final written skipped) :
    match outcome with
    | .written => Accounts root (path :: paths) disk final ((path, text) :: written) skipped
    | .alreadyThere => Accounts root (path :: paths) disk final written (path :: skipped) := by
  have hadds := addsDirectories_makeParent disk (Path.join root path)
  obtain ⟨mid, hmade, hcreate⟩ := mid_of_writeNewFile hwrite
  rw [hmade] at hadds
  rcases hcreate with ⟨hcreated, rfl⟩ | ⟨hrefused, rfl, rfl⟩
  · exact h.write hadds hcreated
  · obtain ⟨entry, hfind⟩ := Disk.find_of_occupied hrefused
    exact h.skip hadds hfind

end Paths

/-! ## Modules -/

variable {plan : ModulePlan}

/-- The path and the content of a file of a module. -/
def ModuleFile.entry (file : ModuleFile) : String × String := (file.path, file.content)

/-- If a template is filled in, the file goes where the template says, and the disk is
    as it was. -/
theorem of_run_fill {template : ModuleTemplate} {file : ModuleFile}
    (h : (plan.fill template).run.run disk = (.ok file, later)) :
    file.path = template.outputPath plan.name ∧ later = disk := by
  rw [run_fill_eq] at h
  obtain ⟨hfilled, hlater⟩ := Prod.mk.inj h
  exact ⟨path_of_filled hfilled, hlater.symm⟩

/-- The report on some files of a module is an account of their paths. -/
theorem accounts_of_generateOf {templates : List ModuleTemplate} {report : ModuleReport}
    (hrun : (plan.generateOf templates).run.run disk = (.ok report, final)) :
    Accounts plan.root (templates.map (·.outputPath plan.name)) disk final
      (report.generated.map ModuleFile.entry) report.skipped := by
  induction templates generalizing disk report with
  | nil =>
      cases hrun
      exact Accounts.nil plan.root _
  | cons template rest ih =>
      rw [run_generateOf] at hrun
      cases hfind : disk.find (outputFile plan.root plan.name template) with
      | ok entry =>
          -- what is found is skipped
          rw [hfind] at hrun
          change Prod.map _ _ _ = _ at hrun
          obtain ⟨report, hrest, rfl⟩ := Attempt.of_run_map hrun
          exact (ih hrest).skip (AddsDirectories.refl disk) hfind
      | error reason =>
          rw [hfind] at hrun
          cases hfill : (plan.fill template).run.run disk with
          | mk filled mid =>
              rw [hfill] at hrun
              cases filled with
              | error failure => cases hrun
              | ok file =>
                  obtain ⟨hpath, rfl⟩ := of_run_fill hfill
                  simp only [Except.toOption, Option.isSome_none, Bool.false_eq_true,
                    if_false] at hrun
                  cases hwrite : (writeNewFile plan.root file.path file.content).run.run mid with
                  | mk result later =>
                      rw [hwrite] at hrun
                      cases result with
                      | error failure => cases hrun
                      | ok outcome =>
                          rw [List.map_cons, ← hpath]
                          cases outcome with
                          | written =>
                              change Prod.map _ _ _ = _ at hrun
                              obtain ⟨report, hrest, rfl⟩ := Attempt.of_run_map hrun
                              exact Accounts.newFile hwrite (ih hrest)
                          | alreadyThere =>
                              change Prod.map _ _ _ = _ at hrun
                              obtain ⟨report, hrest, rfl⟩ := Attempt.of_run_map hrun
                              exact Accounts.newFile hwrite (ih hrest)

/-! ## Servers -/

/-- Server files are copied one by one. -/
theorem run_copyServerFiles (root : String) (overrides : Option String) (file : ServerFile)
    (rest : List ServerFile) (disk : Disk) :
    (copyServerFiles root overrides (file :: rest)).run.run disk
      = match (loadTemplate overrides file.name file.builtin).run.run disk with
        | (.error failure, mid) => (.error failure, mid)
        | (.ok content, mid) =>
            match (writeNewFile root file.output content).run.run mid with
            | (.ok .written, later) =>
                Prod.map (Except.map (·.addWritten file.output)) id
                  ((copyServerFiles root overrides rest).run.run later)
            | (.ok .alreadyThere, later) =>
                Prod.map (Except.map (·.addKept file.output)) id
                  ((copyServerFiles root overrides rest).run.run later)
            | (.error failure, later) => (.error failure, later) := by
  rw [copyServerFiles, Attempt.run_bind]
  obtain ⟨loaded, mid⟩ := (loadTemplate overrides file.name file.builtin).run.run disk
  cases loaded with
  | error failure => rfl
  | ok content =>
      simp only [Attempt.run_bind]
      obtain ⟨result, later⟩ := (writeNewFile root file.output content).run.run mid
      cases result with
      | error failure => rfl
      | ok outcome =>
          cases outcome with
          | written => exact Attempt.run_map later _ _
          | alreadyThere => exact Attempt.run_map later _ _

/-- The report on some files of a server is an account of their paths, with the texts
    that were written. -/
theorem accounts_of_copyServerFiles {overrides : Option String} {files : List ServerFile}
    {report : ServerReport}
    (hrun : (copyServerFiles root overrides files).run.run disk = (.ok report, final)) :
    ∃ written : List (String × String), written.map Prod.fst = report.written
      ∧ Accounts root (files.map (·.output)) disk final written report.kept := by
  induction files generalizing disk report with
  | nil =>
      cases hrun
      exact ⟨[], rfl, Accounts.nil root _⟩
  | cons file rest ih =>
      rw [run_copyServerFiles, run_loadTemplate_eq] at hrun
      cases hload : loaded disk overrides file.name file.builtin with
      | error failure =>
          rw [hload] at hrun
          cases hrun
      | ok content =>
          rw [hload] at hrun
          cases hwrite : (writeNewFile root file.output content).run.run disk with
          | mk result later =>
              simp only [hwrite] at hrun
              cases result with
              | error failure => cases hrun
              | ok outcome =>
                  cases outcome with
                  | written =>
                      change Prod.map _ _ _ = _ at hrun
                      obtain ⟨report, hrest, rfl⟩ := Attempt.of_run_map hrun
                      obtain ⟨written, hwritten, haccounts⟩ := ih hrest
                      exact ⟨(file.output, content) :: written,
                        congrArg (file.output :: ·) hwritten, Accounts.newFile hwrite haccounts⟩
                  | alreadyThere =>
                      change Prod.map _ _ _ = _ at hrun
                      obtain ⟨report, hrest, rfl⟩ := Attempt.of_run_map hrun
                      obtain ⟨written, hwritten, haccounts⟩ := ih hrest
                      exact ⟨written, hwritten, Accounts.newFile hwrite haccounts⟩

end Project

end Stencil
