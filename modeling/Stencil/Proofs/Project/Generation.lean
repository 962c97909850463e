import Stencil.Project.Module
import Stencil.Proofs.Project.Places

/-! # Generating a module

    Loading a template looks at the file that may override it and changes nothing
    (`run_loadTemplate_eq`).  A module is generated file by file (`run_generateOf`).
    Where there is room for its files, that does not fail (`run_generateOf_of_room`);
    and where there is nothing at their places, all of them are written
    (`holds_of_generateOf`). -/

namespace Stencil.Project

open Files (Disk Entry Job LinkedDisk)

variable {plan : ModulePlan} {disk final : Disk}

/-! ## Loading a template -/

/-- What loading a template comes to. -/
def loaded (disk : Disk) (overrides : Option String) (name builtin : String) :
    Except Failure String :=
  match overrides with
  | none => .ok builtin
  | some directory =>
      match disk.find (Path.join directory name) with
      | .ok (.file content) =>
          (Job.decode content).mapError (Failure.template (Path.join directory name))
      | .ok .directory => .ok builtin
      | .error _ => .ok builtin

theorem loaded_some (disk : Disk) (directory name builtin : String) :
    loaded disk (some directory) name builtin
      = match disk.find (Path.join directory name) with
        | .ok (.file content) =>
            (Job.decode content).mapError (Failure.template (Path.join directory name))
        | .ok .directory => .ok builtin
        | .error _ => .ok builtin := by
  rfl

/-- Loading a template looks at the overriding file, where a link there leads, and changes
    nothing. -/
theorem runLinked_loadTemplate (linked : LinkedDisk) (directory name builtin : String) :
    (loadTemplate (some directory) name builtin).run.runLinked linked
      = (match linked.find (Path.join directory name) with
        | .ok (.file content) =>
            (Job.decode content).mapError (Failure.template (Path.join directory name))
        | .ok .directory => .ok builtin
        | .error _ => .ok builtin, linked) := by
  have hisFile : (Job.isFile (Path.join directory name)).runLinked linked
      = (((linked.find (Path.join directory name)).toOption.map Entry.kind == some .file),
        linked) :=
    rfl
  have hread : (Job.readText (Path.join directory name)).runLinked linked
      = ((linked.find (Path.join directory name) >>= Entry.content).bind Job.decode, linked) :=
    rfl
  rw [loadTemplate]
  simp only [Attempt.runLinked_bind, Attempt.runLinked_lift, hisFile]
  cases hfind : linked.find (Path.join directory name) with
  | error reason => rfl
  | ok entry =>
      cases entry with
      | directory => rfl
      | file content =>
          show ((liftM (Job.readText (Path.join directory name)) >>= _ :
            Attempt String)).run.runLinked linked = _
          rw [hfind] at hread
          change _ = (Job.decode content, linked) at hread
          simp only [Attempt.runLinked_bind, Attempt.runLinked_lift, hread]
          cases Job.decode content <;> rfl

/-- Without links, loading a template comes to what stands at the path of the overriding
    file. -/
theorem run_loadTemplate_eq (overrides : Option String) (name builtin : String) (disk : Disk) :
    (loadTemplate overrides name builtin).run.run disk
      = (loaded disk overrides name builtin, disk) := by
  cases overrides with
  | none => rfl
  | some directory =>
      have hlinked := runLinked_loadTemplate (LinkedDisk.ofDisk disk) directory name builtin
      rw [Job.runLinked_ofDisk, LinkedDisk.find_ofDisk] at hlinked
      obtain ⟨hresult, hdisk⟩ := Prod.mk.inj hlinked
      exact Prod.ext hresult (congrArg LinkedDisk.disk hdisk)

/-- Loading fails only because the overriding file cannot be read. -/
theorem template_of_loaded {overrides : Option String} {name builtin : String}
    {failure : Failure} (h : loaded disk overrides name builtin = .error failure) :
    ∃ (path : String) (reason : Files.Refusal), failure = .template path reason := by
  cases overrides with
  | none => cases h
  | some directory =>
      rw [loaded_some] at h
      cases hfind : disk.find (Path.join directory name) with
      | error reason => rw [hfind] at h; cases h
      | ok entry =>
          rw [hfind] at h
          cases entry with
          | directory => cases h
          | file content =>
              cases hdecode : Job.decode content with
              | error reason =>
                  simp only [hdecode] at h
                  cases h
                  exact ⟨_, _, rfl⟩
              | ok text => simp only [hdecode] at h; cases h

/-- The file that a template makes for a plan, given the text of the template. -/
def ModulePlan.fileOf (plan : ModulePlan) (template : ModuleTemplate) (text : String) :
    ModuleFile :=
  ⟨template.outputPath plan.name, fillTemplate text plan.name plan.fields, template.description⟩

/-- The file that a template makes for a plan, if the template can be loaded. -/
def ModulePlan.filled (disk : Disk) (plan : ModulePlan) (template : ModuleTemplate) :
    Except Failure ModuleFile :=
  (loaded disk plan.overrides template.name template.builtin).map (plan.fileOf template)

theorem run_fill_eq (plan : ModulePlan) (template : ModuleTemplate) (disk : Disk) :
    (plan.fill template).run.run disk = (plan.filled disk template, disk) := by
  rw [ModulePlan.fill, Attempt.run_bind, run_loadTemplate_eq, ModulePlan.filled]
  cases loaded disk plan.overrides template.name template.builtin <;> rfl

theorem path_of_filled {plan : ModulePlan} {template : ModuleTemplate} {file : ModuleFile}
    (h : plan.filled disk template = .ok file) : file.path = template.outputPath plan.name := by
  rw [ModulePlan.filled] at h
  cases hloaded : loaded disk plan.overrides template.name template.builtin with
  | error failure => rw [hloaded] at h; cases h
  | ok text =>
      rw [hloaded] at h
      cases h
      rfl

/-! ## File by file -/

theorem run_isThere (disk : Disk) (path : String) :
    (Job.isThere path).run disk = ((disk.find path).toOption.isSome, disk) := by
  show (((disk.find path).toOption.map Entry.kind).isSome, disk) = _
  rw [Option.isSome_map]

/-- Generating goes file by file: what is there is skipped, all else is filled in and
    written, or skipped after all if it is there by then. -/
theorem run_generateOf (plan : ModulePlan) (template : ModuleTemplate)
    (rest : List ModuleTemplate) (disk : Disk) :
    (plan.generateOf (template :: rest)).run.run disk
      = if (disk.find (outputFile plan.root plan.name template)).toOption.isSome then
          Prod.map (Except.map (·.addSkipped (template.outputPath plan.name))) id
            ((plan.generateOf rest).run.run disk)
        else
          match (plan.fill template).run.run disk with
          | (.error failure, mid) => (.error failure, mid)
          | (.ok file, mid) =>
              match (writeNewFile plan.root file.path file.content).run.run mid with
              | (.ok .written, later) =>
                  Prod.map (Except.map (·.addGenerated file)) id
                    ((plan.generateOf rest).run.run later)
              | (.ok .alreadyThere, later) =>
                  Prod.map (Except.map (·.addSkipped file.path)) id
                    ((plan.generateOf rest).run.run later)
              | (.error failure, later) => (.error failure, later) := by
  rw [ModulePlan.generateOf, Attempt.run_bind, Attempt.run_lift, run_isThere]
  show ((if (disk.find (outputFile plan.root plan.name template)).toOption.isSome = true then _
    else _ : Attempt ModuleReport)).run.run disk = _
  by_cases hthere : (disk.find (outputFile plan.root plan.name template)).toOption.isSome = true
  · rw [if_pos hthere, if_pos hthere]
    exact Attempt.run_map disk _ _
  rw [if_neg hthere, if_neg hthere, Attempt.run_bind]
  obtain ⟨filled, mid⟩ := (plan.fill template).run.run disk
  cases filled with
  | error failure => rfl
  | ok file =>
      simp only [Attempt.run_bind]
      obtain ⟨result, later⟩ := (writeNewFile plan.root file.path file.content).run.run mid
      cases result with
      | error failure => rfl
      | ok outcome =>
          cases outcome with
          | written => exact Attempt.run_map later _ _
          | alreadyThere => exact Attempt.run_map later _ _

/-- The file of a template for a plan, from the built-in template. -/
def ModulePlan.builtinFile (plan : ModulePlan) (template : ModuleTemplate) : ModuleFile :=
  ⟨template.outputPath plan.name, fillTemplate template.builtin plan.name plan.fields,
    template.description⟩

/-- Without overriding templates, a file is its built-in template filled in. -/
theorem run_fill (h : plan.overrides = none) (template : ModuleTemplate) (disk : Disk) :
    (plan.fill template).run.run disk = (.ok (plan.builtinFile template), disk) := by
  rw [run_fill_eq, ModulePlan.filled, h]
  rfl

/-- Without overriding templates, all that is not there is written from the built-in
    templates. -/
theorem run_generateOf_cons (h : plan.overrides = none) (template : ModuleTemplate)
    (rest : List ModuleTemplate) (disk : Disk) :
    (plan.generateOf (template :: rest)).run.run disk
      = if (disk.find (outputFile plan.root plan.name template)).toOption.isSome then
          Prod.map (Except.map (·.addSkipped (template.outputPath plan.name))) id
            ((plan.generateOf rest).run.run disk)
        else
          match (writeNewFile plan.root (template.outputPath plan.name)
              (plan.builtinFile template).content).run.run disk with
          | (.ok .written, later) =>
              Prod.map (Except.map (·.addGenerated (plan.builtinFile template))) id
                ((plan.generateOf rest).run.run later)
          | (.ok .alreadyThere, later) =>
              Prod.map (Except.map (·.addSkipped (template.outputPath plan.name))) id
                ((plan.generateOf rest).run.run later)
          | (.error failure, later) => (.error failure, later) := by
  rw [run_generateOf, run_fill h]
  rfl

/-! ## All files -/

/-- Files whose places are free are all written: at the end each stands at its
    place, its template filled in. -/
theorem holds_of_generateOf (plan : ModulePlan) (hoverrides : plan.overrides = none)
    (hmodule : '/' ∉ plan.name.toList) {templates : List ModuleTemplate}
    (hall : ∀ template ∈ templates, template ∈ ModuleTemplate.all)
    (hapart : templates.Pairwise fun template template' =>
      template.outputNames plan.name ≠ template'.outputNames plan.name)
    {report : ModuleReport} (hroot : RootAvoids disk plan.root plan.name)
    (hfree : ∀ template ∈ templates,
      disk.entry? (outputPlace disk plan.root plan.name template) = none)
    (hrun : (plan.generateOf templates).run.run disk = (.ok report, final)) :
    ∀ template ∈ templates, final.Holds
      ⟨outputFile plan.root plan.name template, (plan.builtinFile template).content⟩
      (outputPlace disk plan.root plan.name template) := by
  induction templates generalizing disk report with
  | nil => intro template hmem; cases hmem
  | cons template rest ih =>
      have htemplate := hall template (List.mem_cons_self ..)
      have hplace := hfree template (List.mem_cons_self ..)
      obtain ⟨hapart, hrest⟩ := List.pairwise_cons.mp hapart
      -- nothing is found where the file goes, so it is not skipped
      have hnone : (disk.find (outputFile plan.root plan.name template)).toOption.isSome
          = false := by
        cases hfind : disk.find (outputFile plan.root plan.name template) with
        | error reason => rfl
        | ok entry =>
            obtain ⟨name, hlast, hdots⟩ := getLast?_outputFile htemplate hmodule plan.root
            have hentry := Disk.entry?_of_find hlast hdots hfind
            rw [outputPlace, hentry] at hplace
            cases hplace
      rw [run_generateOf_cons hoverrides, hnone, if_neg Bool.false_ne_true] at hrun
      -- the file is written, and the places of the others stay free
      cases hwrite : (writeNewFile plan.root (template.outputPath plan.name)
          (plan.builtinFile template).content).run.run disk with
      | mk result later =>
          rw [hwrite] at hrun
          cases result with
          | error failure => cases hrun
          | ok outcome =>
              obtain ⟨rfl, hgrows, hholds, hkeep⟩ :=
                written_of_free htemplate hmodule hroot hplace hwrite
              change Prod.map _ _ _ = _ at hrun
              cases hmore : (plan.generateOf rest).run.run later with
              | mk result' last =>
                  rw [hmore] at hrun
                  cases result' with
                  | error failure => cases hrun
                  | ok report' =>
                      cases hrun
                      have hlast := Job.grows_run later (plan.generateOf rest).run
                      rw [hmore] at hlast
                      have hothers := ih
                        (fun other hother => hall other (List.mem_cons_of_mem _ hother)) hrest
                        (hroot.of_grows hgrows)
                        (fun other hother => by
                          rw [outputPlace_of_grows hgrows]
                          exact hkeep other (hall other (List.mem_cons_of_mem _ hother))
                            (hapart other hother) (hfree other (List.mem_cons_of_mem _ hother)))
                        hmore
                      intro other hother
                      rcases List.mem_cons.mp hother with rfl | hother
                      · exact hlast.holds hholds
                      · rw [← outputPlace_of_grows hgrows]
                        exact hothers other hother

/-- Where there is room for every file, and the root does not go through the place of
    one that comes before another, generating does not fail. -/
theorem run_generateOf_of_room (plan : ModulePlan) (hoverrides : plan.overrides = none)
    (hmodule : '/' ∉ plan.name.toList) {templates : List ModuleTemplate}
    (hall : ∀ template ∈ templates, template ∈ ModuleTemplate.all)
    (hpast : templates.Pairwise fun template _ =>
      GoesPast disk plan.root (outputPlace disk plan.root plan.name template))
    (hroom : ∀ template ∈ templates, Room disk (outputFile plan.root plan.name template)) :
    ∃ (report : ModuleReport) (final : Disk),
      (plan.generateOf templates).run.run disk = (.ok report, final) := by
  induction templates generalizing disk with
  | nil => exact ⟨ModuleReport.empty, disk, rfl⟩
  | cons template rest ih =>
      have hall' : ∀ other ∈ rest, other ∈ ModuleTemplate.all :=
        fun other hother => hall other (List.mem_cons_of_mem _ hother)
      have hroom' : ∀ other ∈ rest, Room disk (outputFile plan.root plan.name other) :=
        fun other hother => hroom other (List.mem_cons_of_mem _ hother)
      obtain ⟨hpast, hpast'⟩ := List.pairwise_cons.mp hpast
      rw [run_generateOf_cons hoverrides]
      by_cases hthere : (disk.find (outputFile plan.root plan.name template)).toOption.isSome = true
      · obtain ⟨report, final, hrun⟩ := ih hall' hpast' hroom'
        rw [if_pos hthere, hrun]
        exact ⟨_, final, rfl⟩
      rw [if_neg hthere]
      obtain ⟨outcome, later, hwrite⟩ := (hroom template (List.mem_cons_self ..)).run_writeNewFile
        (plan.builtinFile template).content
      have hgrows := Job.grows_run disk (writeNewFile plan.root (template.outputPath plan.name)
        (plan.builtinFile template).content).run
      rw [hwrite] at hgrows ⊢
      -- written or skipped, there is still room for the others
      obtain ⟨report, final, hrun⟩ := ih hall'
        (hpast'.imp fun {other _} h => by
          rw [outputPlace_of_grows hgrows]
          exact h.of_grows hgrows)
        (fun other hother => by
          exact (hroom' other hother).of_writeNewFile hwrite fun before hbefore =>
            dropLast_avoids (hall' other hother) (hall template (List.mem_cons_self ..)) hmodule
              (hpast other hother) hbefore)
      cases outcome with
      | written =>
          show ∃ report final, Prod.map _ _ _ = _
          rw [hrun]
          exact ⟨_, final, rfl⟩
      | alreadyThere =>
          show ∃ report final, Prod.map _ _ _ = _
          rw [hrun]
          exact ⟨_, final, rfl⟩

end Stencil.Project
