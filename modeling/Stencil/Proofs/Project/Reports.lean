import Stencil.Proofs.Project.Accounts
import Stencil.Proofs.Project.ModuleFiles

/-! # Reports and second runs

    A module or a server that has been made is not made again: every file is found
    where it goes.  A second run on a module does not even read the overriding
    templates, so it does not matter what has become of them
    (`run_generateOf_of_found`).  A second run on a server reads them all, and may fail
    if one cannot be read, but it changes nothing (`run_copyServerFiles_of_found`).

    With the accounts of the first runs, this is what the reports are good for
    (`reports_account`). -/

namespace Stencil.Project

open Files (Disk Entry Job Location)

variable {disk later final : Disk}

/-! ## Modules -/

variable {plan : ModulePlan}

/-- Where all files are found, all are skipped, no file is read, and the disk stays as it
    is. -/
theorem run_generateOf_of_found {templates : List ModuleTemplate}
    (h : ∀ template ∈ templates, ∃ entry : Entry,
      disk.find (outputFile plan.root plan.name template) = .ok entry) :
    (plan.generateOf templates).run.run disk
        = (.ok ⟨[], templates.map (·.outputPath plan.name)⟩, disk)
      ∧ (plan.generateOf templates).run.reads disk = [] := by
  induction templates with
  | nil => exact ⟨rfl, rfl⟩
  | cons template rest ih =>
      obtain ⟨entry, hfind⟩ := h template (List.mem_cons_self ..)
      obtain ⟨hrun, hreads⟩ := ih fun other hother => h other (List.mem_cons_of_mem _ hother)
      have hthere :
          (disk.find (outputFile plan.root plan.name template)).toOption.isSome = true := by
        rw [hfind]
        rfl
      constructor
      · rw [run_generateOf, if_pos hthere, hrun]
        rfl
      · rw [ModulePlan.generateOf, Attempt.reads_bind, Attempt.run_lift, Attempt.reads_lift,
          run_isThere]
        show [] ++ ((if (disk.find (outputFile plan.root plan.name template)).toOption.isSome = true
          then _ else _ : Attempt ModuleReport)).run.reads disk = []
        rw [if_pos hthere, Attempt.reads_bind, hreads, hrun]
        rfl

/-- Whether a later disk differs only in the files that may override the templates of a
    plan. -/
structure ChangesOverrides (plan : ModulePlan) (disk later : Disk) : Prop where
  here : later.here = disk.here
  others : ∀ place : Location, later.entry? place = disk.entry? place
    ∨ disk.entry? place ≠ some .directory
      ∧ ∃ (directory : String) (template : ModuleTemplate), plan.overrides = some directory
          ∧ template ∈ ModuleTemplate.all
          ∧ disk.Leads (Path.join directory template.name) place

theorem ChangesOverrides.refl (plan : ModulePlan) (disk : Disk) : ChangesOverrides plan disk disk :=
  ⟨rfl, fun _ => Or.inl rfl⟩

theorem ChangesOverrides.keepsDirectories (h : ChangesOverrides plan disk later) :
    Disk.KeepsDirectories disk later where
  here := h.here
  directories := by
    intro place hdirectory
    rcases h.others place with hsame | ⟨hne, -⟩
    · rw [hsame, hdirectory]
    · exact absurd hdirectory hne

/-- No file of a module has the name of a template, so it is found as it was. -/
theorem ChangesOverrides.find (h : ChangesOverrides plan disk later) {root module : String}
    {template : ModuleTemplate} {entry : Entry}
    (hfind : disk.find (outputFile root module template) = .ok entry) :
    later.find (outputFile root module template) = .ok entry := by
  have htemplates : ∀ template ∈ ModuleTemplate.all,
      ∃ name ∈ (Path.names template.name).getLast?, name.toList.getLast? ≠ some 's' := by
    decide
  obtain ⟨name, hlast, hdots, hend⟩ := template.getLast?_names_join_outputPath root module
  obtain ⟨parent, hleads, hentry⟩ := Disk.leads_of_find hlast hdots hfind
  have hlater : later.entry? (parent ++ [name]) = some entry := by
    rcases h.others (parent ++ [name]) with hsame | ⟨-, directory, other, -, hmem, hother⟩
    · rw [hsame, hentry]
    · obtain ⟨name', hname', hend'⟩ := htemplates other hmem
      have hplace := hother.getLast?
      rw [List.getLast?_concat, Path.getLast?_names_join directory hname'] at hplace
      cases hplace
      exact absurd hend hend'
  rw [outputFile] at hfind ⊢
  rw [hleads.find, hentry] at hfind
  rw [(h.keepsDirectories.leads hleads).find, hlater]
  exact hfind

/-! ## Servers -/

/-- Where all files are found, the disk stays as it is: all are kept, unless a template
    cannot be read. -/
theorem run_copyServerFiles_of_found {root : String} (overrides : Option String)
    {files : List ServerFile} (hall : ∀ file ∈ files, file ∈ ServerFile.all)
    (h : ∀ file ∈ files, ∃ entry : Entry, disk.find (Path.join root file.output) = .ok entry) :
    (copyServerFiles root overrides files).run.run disk
        = (.ok ⟨[], files.map (·.output)⟩, disk)
      ∨ ∃ (path : String) (reason : Files.Refusal),
          (copyServerFiles root overrides files).run.run disk
            = (.error (.template path reason), disk) := by
  have houtputs : ∀ file ∈ ServerFile.all,
      (∃ name ∈ (Path.names file.output).getLast?, name ≠ "." ∧ name ≠ "..")
        ∧ file.output ≠ "" ∧ Path.endsInSlash file.output = false := by
    decide
  induction files with
  | nil => exact Or.inl rfl
  | cons file rest ih =>
      obtain ⟨entry, hfind⟩ := h file (List.mem_cons_self ..)
      obtain ⟨⟨name, hname, hdots⟩, hne, hslash⟩ :=
        houtputs file (hall file (List.mem_cons_self ..))
      rw [run_copyServerFiles, run_loadTemplate_eq]
      cases hload : loaded disk overrides file.name file.builtin with
      | error failure =>
          obtain ⟨path, reason, rfl⟩ := template_of_loaded hload
          exact Or.inr ⟨path, reason, rfl⟩
      | ok content =>
          have hkept := run_writeNewFile_of_find (Path.getLast?_names_join root hname) hdots
            ((Path.endsInSlash_join_of_ne root hne).trans hslash) hfind content
          simp only [hkept]
          rcases ih (fun other hother => hall other (List.mem_cons_of_mem _ hother))
            (fun other hother => h other (List.mem_cons_of_mem _ hother)) with
            hrun | ⟨path, reason, hrun⟩
          · rw [hrun]
            exact Or.inl rfl
          · rw [hrun]
            exact Or.inr ⟨path, reason, rfl⟩

/-! ## Reports -/

/-- The paths of the files of a module. -/
def ModulePlan.paths (plan : ModulePlan) : List String :=
  ModuleTemplate.all.map (·.outputPath plan.name)

/-- The paths of the files of a server. -/
def serverPaths : List String := ServerFile.all.map (·.output)

/-- **Reports are accounts, and second runs change nothing.**  On every disk:

    * the paths of the files of a module differ, whatever its name;
    * if a module is generated, the report accounts for its paths, with the contents
      that were written.  Afterwards, even if the overriding templates change, it is
      generated again with nothing written, every path skipped, no file read and the
      disk left as it is;
    * if a server is set up, the report accounts for its paths.  Setting it up
      again writes nothing and leaves the disk as it is, and a report on it has
      every path kept. -/
theorem reports_account (disk : Disk) :
    (∀ module : String, ModuleTemplate.all.Pairwise fun template template' =>
        Path.steps (template.outputPath module) ≠ Path.steps (template'.outputPath module))
      ∧ (∀ (plan : ModulePlan) (report : ModuleReport) (final : Disk),
          plan.generate.run.run disk = (.ok report, final) →
          Accounts plan.root plan.paths disk final
              (report.generated.map ModuleFile.entry) report.skipped
            ∧ ∀ later : Disk, ChangesOverrides plan final later →
                plan.generate.run.run later = (.ok ⟨[], plan.paths⟩, later)
                  ∧ plan.generate.run.reads later = [])
      ∧ (∀ (root : String) (overrides : Option String) (report : ServerReport) (final : Disk),
          (setUpServer root overrides).run.run disk = (.ok report, final) →
          serverPaths.Nodup
            ∧ (∃ written : List (String × String), written.map Prod.fst = report.written
                ∧ Accounts root serverPaths disk final written report.kept)
            ∧ ((setUpServer root overrides).run.run final).2 = final
            ∧ (setUpServer root overrides).run.writes final = []
            ∧ ∀ report' : ServerReport,
                ((setUpServer root overrides).run.run final).1 = .ok report' →
                report' = ⟨[], serverPaths⟩) := by
  refine ⟨ModuleTemplate.pairwise_steps_outputPath, ?_, ?_⟩
  · intro plan report final hrun
    have haccounts := accounts_of_generateOf hrun
    refine ⟨haccounts, fun later hlater => run_generateOf_of_found fun template htemplate => ?_⟩
    obtain ⟨entry, hfind⟩ := haccounts.find _ (List.mem_map_of_mem htemplate)
    exact ⟨entry, hlater.find hfind⟩
  · intro root overrides report final hrun
    obtain ⟨written, hwritten, haccounts⟩ := accounts_of_copyServerFiles hrun
    have hfound : ∀ file ∈ ServerFile.all, ∃ entry : Entry,
        final.find (Path.join root file.output) = .ok entry :=
      fun file hfile => haccounts.find _ (List.mem_map_of_mem hfile)
    have hagain := run_copyServerFiles_of_found overrides (fun _ h => h) hfound
    have hsame : ((setUpServer root overrides).run.run final).2 = final := by
      rcases hagain with hrun | ⟨path, reason, hrun⟩
      · exact congrArg Prod.snd hrun
      · exact congrArg Prod.snd hrun
    refine ⟨by decide, ⟨written, hwritten, haccounts⟩, hsame, Job.writes_eq_nil_of_run_eq hsame, ?_⟩
    intro report' hreport
    rw [setUpServer] at hreport
    rcases hagain with hrun | ⟨path, reason, hrun⟩
    · rw [hrun] at hreport
      exact (Except.ok.inj hreport).symm
    · rw [hrun] at hreport
      cases hreport

/-- A server and the posts of the blog are made next to its schema. -/
theorem reports_account_blog :
    (∃ (report : ModuleReport) (final : Disk),
        (postPlan "").generate.run.run (blogDisk []) = (.ok report, final)
          ∧ Accounts "" (postPlan "").paths (blogDisk []) final
              (report.generated.map ModuleFile.entry) report.skipped
          ∧ (postPlan "").generate.run.run final = (.ok ⟨[], (postPlan "").paths⟩, final))
      ∧ ∃ (report : ServerReport) (final : Disk),
          (setUpServer "" none).run.run (blogDisk []) = (.ok report, final)
            ∧ (∃ written : List (String × String), written.map Prod.fst = report.written
                ∧ Accounts "" serverPaths (blogDisk []) final written report.kept)
            ∧ (setUpServer "" none).run.writes final = [] := by
  obtain ⟨-, hmodule, hserver⟩ := reports_account (blogDisk [])
  constructor
  · have hfree : ∀ template ∈ ModuleTemplate.all,
        Disk.entry? (blogDisk []) (outputPlace (blogDisk []) "" "post" template) = none :=
      free_posts (by decide +kernel)
    have hpast : ModuleTemplate.all.Pairwise fun template _ =>
        GoesPast (blogDisk []) "" (outputPlace (blogDisk []) "" "post" template) := by
      refine (ModuleTemplate.pairwise_outputNames "post").imp_of_mem fun {template _} hmem _ _ => ?_
      intro before after hnames hplace
      obtain ⟨rfl, rfl⟩ := List.append_eq_nil_iff.mp hnames.symm
      exact Disk.ne_root_of_free (hfree template hmem) hplace.symm
    obtain ⟨report, final, hrun⟩ := run_generateOf_of_room (postPlan "") rfl (by decide)
      (fun _ h => h) hpast (room_posts (by decide +kernel) (by decide))
    obtain ⟨haccounts, hagain⟩ := hmodule _ report final hrun
    exact ⟨report, final, hrun, haccounts, (hagain final (ChangesOverrides.refl _ final)).1⟩
  · have hsucceeds : ((setUpServer "" none).run.run (blogDisk [])).1.isOk = true := by
      decide +kernel
    cases hrun : (setUpServer "" none).run.run (blogDisk []) with
    | mk result final =>
        rw [hrun] at hsucceeds
        cases result with
        | error failure => cases hsucceeds
        | ok report =>
            obtain ⟨-, haccounts, -, hwrites, -⟩ := hserver "" none report final hrun
            exact ⟨report, final, rfl, haccounts, hwrites⟩

end Stencil.Project
