import Stencil.Proofs.Project.Overriding
import Stencil.Proofs.Template.Filled

/-! # Preview and generation agree

    A preview loads every template on the disk as it stands.  Generation loads a
    template only after the files before it are written, on a disk that has grown.
    As no file of a module has the name of a template, both load the same texts; so
    what is generated is what the preview shows, without the files that are skipped
    (`generated_eq_filter_preview`).

    A disk has no symbolic links.  With one among the templates, to a file that is
    generated, the two differ (`generated_ne_filter_preview_linked`). -/

namespace Stencil.Project

open Files (Disk Entry Job LinkedDisk)

variable {plan : ModulePlan} {disk later final : Disk}

/-! ## Previews -/

/-- A preview fills in the templates one by one, and changes nothing. -/
theorem of_run_previewOf {templates : List ModuleTemplate} {files : List ModuleFile}
    (h : (plan.previewOf templates).run.run disk = (.ok files, later)) :
    later = disk
      ∧ List.Forall₂ (fun template file => plan.filled disk template = .ok file) templates files := by
  induction templates generalizing files with
  | nil =>
      cases h
      exact ⟨rfl, List.Forall₂.nil⟩
  | cons template rest ih =>
      rw [ModulePlan.previewOf, Attempt.run_bind, run_fill_eq] at h
      cases hfilled : plan.filled disk template with
      | error failure => rw [hfilled] at h; cases h
      | ok file =>
          rw [hfilled] at h
          change (do return file :: (← plan.previewOf rest) :
            Attempt (List ModuleFile)).run.run disk = _ at h
          rw [Attempt.run_map] at h
          obtain ⟨others, hrest, rfl⟩ := Attempt.of_run_map h
          obtain ⟨hsame, hothers⟩ := ih hrest
          exact ⟨hsame, List.Forall₂.cons hfilled hothers⟩

/-- The files of a preview go where the templates say. -/
theorem paths_of_filled {templates : List ModuleTemplate} {files : List ModuleFile}
    (h : List.Forall₂ (fun template file => plan.filled disk template = .ok file)
      templates files) :
    files.map ModuleFile.path = templates.map (·.outputPath plan.name) := by
  induction h with
  | nil => rfl
  | cons hfilled _ ih =>
      rw [List.map_cons, List.map_cons, ih, path_of_filled hfilled]

/-! ## Generation, file by file -/

/-- What becomes of the first template, when generating succeeds: its path is skipped, or
    its file is filled in and written. -/
theorem of_run_generateOf_cons {template : ModuleTemplate} {rest : List ModuleTemplate}
    {report : ModuleReport}
    (h : (plan.generateOf (template :: rest)).run.run disk = (.ok report, final)) :
    ∃ (mid : Disk) (report' : ModuleReport), SparesTemplates disk mid
      ∧ (plan.generateOf rest).run.run mid = (.ok report', final)
      ∧ (report = report'.addSkipped (template.outputPath plan.name)
        ∨ ∃ file : ModuleFile, plan.filled disk template = .ok file
            ∧ report = report'.addGenerated file) := by
  rw [run_generateOf, run_fill_eq] at h
  by_cases hthere :
      (disk.find (outputFile plan.root plan.name template)).toOption.isSome = true
  · rw [if_pos hthere] at h
    obtain ⟨report', hrest, rfl⟩ := Attempt.of_run_map h
    exact ⟨disk, report', SparesTemplates.refl disk, hrest, Or.inl rfl⟩
  rw [if_neg hthere] at h
  cases hfilled : plan.filled disk template with
  | error failure => rw [hfilled] at h; cases h
  | ok file =>
      have hpath := path_of_filled hfilled
      have hspares := spares_writeNewFile disk
        (not_endsAsTemplate_output template plan.root plan.name) file.content
      rw [hfilled] at h
      simp only [hpath] at h
      cases hwrite :
          (writeNewFile plan.root (template.outputPath plan.name) file.content).run.run disk with
      | mk result mid =>
          rw [hwrite] at h hspares
          cases result with
          | error failure => cases h
          | ok outcome =>
              cases outcome with
              | written =>
                  obtain ⟨report', hrest, rfl⟩ := Attempt.of_run_map h
                  exact ⟨mid, report', hspares, hrest, Or.inr ⟨file, rfl, rfl⟩⟩
              | alreadyThere =>
                  obtain ⟨report', hrest, rfl⟩ := Attempt.of_run_map h
                  exact ⟨mid, report', hspares, hrest, Or.inl rfl⟩

/-! ## Agreement -/

/-- Leaving out one more path leaves out no file that goes elsewhere. -/
theorem filter_not_mem_cons {files : List ModuleFile} {path : String} {skipped : List String}
    (h : path ∉ files.map ModuleFile.path) :
    files.filter (fun file => file.path ∉ path :: skipped)
      = files.filter (fun file => file.path ∉ skipped) := by
  refine List.filter_congr fun file hfile => ?_
  have hne : file.path ≠ path := fun hpath => h (List.mem_map.mpr ⟨file, hfile, hpath⟩)
  rw [decide_eq_decide, List.mem_cons, or_iff_right hne]

/-- If some templates can be filled in on a tree, then generating their files, there or on
    a disk that spares the templates, generates those that it does not skip. -/
theorem generated_eq_filter (htree : disk.IsTree) (hthere : OverridesThere disk plan.overrides)
    {templates : List ModuleTemplate} (hall : ∀ template ∈ templates, template ∈ ModuleTemplate.all)
    (hapart : (templates.map (·.outputPath plan.name)).Nodup) {files : List ModuleFile}
    (hfiles : List.Forall₂ (fun template file => plan.filled disk template = .ok file)
      templates files)
    (hspares : SparesTemplates disk later) {report : ModuleReport}
    (hrun : (plan.generateOf templates).run.run later = (.ok report, final)) :
    report.generated = files.filter (fun file => file.path ∉ report.skipped) := by
  induction hfiles generalizing later report with
  | nil =>
      cases hrun
      rfl
  | @cons template file rest files hfilled hfiles ih =>
      obtain ⟨hnew, hapart⟩ := List.nodup_cons.mp hapart
      have hpath := path_of_filled hfilled
      obtain ⟨mid, report', hmid, hrest, houtcome⟩ := of_run_generateOf_cons hrun
      have hothers := ih (fun other hother => hall other (List.mem_cons_of_mem _ hother)) hapart
        (hspares.trans hmid) hrest
      rcases houtcome with rfl | ⟨file', hfilled', rfl⟩
      · -- the path is skipped, and no other file has it
        have hskipped :
            file.path ∈ (report'.addSkipped (template.outputPath plan.name)).skipped := by
          rw [hpath]
          exact List.mem_cons_self ..
        rw [List.filter_cons_of_neg (by simpa using hskipped)]
        rw [← paths_of_filled hfiles] at hnew
        exact hothers.trans (filter_not_mem_cons hnew).symm
      · -- the file is the previewed one, and its path is not skipped later
        rw [filled_of_spares htree hspares hthere (hall template (List.mem_cons_self ..)),
          hfilled] at hfilled'
        obtain rfl := Except.ok.inj hfilled'
        have hkept : file.path ∉ (report'.addGenerated file).skipped := by
          intro hmem
          rw [hpath] at hmem
          exact hnew ((accounts_of_generateOf hrest).in_order.2.subset hmem)
        rw [List.filter_cons_of_pos (by simpa using hkept)]
        exact congrArg (file :: ·) hothers

/-- No two files of a module have one path. -/
theorem nodup_outputPaths (module : String) :
    (ModuleTemplate.all.map (·.outputPath module)).Nodup := by
  rw [List.Nodup, List.pairwise_map]
  exact (ModuleTemplate.pairwise_steps_outputPath module).imp
    fun {template template'} hsteps hpath => hsteps (congrArg Path.steps hpath)

/-- **Preview and generation agree.**  Let a disk be a tree on which the directory of
    overriding templates, if there is to be one, is there; and let a module be previewed on
    it.  If the module is then generated, what is generated are the files of the preview
    that are not skipped, in the same order and with the same paths, descriptions and
    contents, whatever the name of the module and the root of the project are. -/
theorem generated_eq_filter_preview (plan : ModulePlan) (htree : disk.IsTree)
    (hthere : OverridesThere disk plan.overrides) {files : List ModuleFile}
    (hpreview : (plan.preview.run.run disk).1 = .ok files) {report : ModuleReport}
    (hrun : plan.generate.run.run disk = (.ok report, final)) :
    report.generated = files.filter (fun file => file.path ∉ report.skipped) := by
  have hfiles := (of_run_previewOf (show (plan.previewOf _).run.run disk
    = (.ok files, (plan.preview.run.run disk).2) from Prod.ext hpreview rfl)).2
  exact generated_eq_filter htree hthere (fun _ h => h) (nodup_outputPaths plan.name) hfiles
    (SparesTemplates.refl disk) hrun

/-! ## Posts next to their templates -/

/-- What passes a check on its result has a result, and the result is as checked. -/
theorem exists_ok_of_check {ε α : Type} {x : Except ε α} (p : α → Prop) [DecidablePred p]
    (h : (x.toOption.any fun a => decide (p a)) = true) : ∃ a : α, x = .ok a ∧ p a := by
  cases x with
  | error reason => cases h
  | ok a => exact ⟨a, rfl, of_decide_eq_true h⟩

/-- A disk with a directory that holds an overriding template and, below, the services of
    the posts. -/
def overridingDisk : Disk :=
  ⟨Ordered.ofList
    ([(["tpl"], .directory), (["tpl", "route.ts.tpl"], .file "// «model»".toUTF8),
      (["tpl", "src"], .directory), (["tpl", "src", "services"], .directory),
      (["tpl", "src", "services", "PostServices"], .directory)]
      ++ (ModuleTemplate.all.filter (·.category = .services)).map fun template =>
        ("tpl" :: template.outputNames "post", .file "old".toUTF8)), []⟩

theorem not_isBlankName_post : isBlankName "post" = false := by decide +kernel

/-- A plan for the posts in the very directory of the overriding templates. -/
def overridingPlan : ModulePlan :=
  ⟨"post", "tpl", some "tpl", none, not_isBlankName_post⟩

/-- The controller and the routes of the posts are generated among the templates, next to
    the services. -/
theorem generated_eq_filter_preview_posts :
    ∃ (files : List ModuleFile) (report : ModuleReport) (final : Disk),
      overridingDisk.IsTree ∧ OverridesThere overridingDisk overridingPlan.overrides
        ∧ (overridingPlan.preview.run.run overridingDisk).1 = .ok files
        ∧ overridingPlan.generate.run.run overridingDisk = (.ok report, final)
        ∧ report.skipped.length = 5
        ∧ report.generated = files.filter (fun file => file.path ∉ report.skipped) := by
  have htree : overridingDisk.IsTree := by decide +kernel
  have hthere : OverridesThere overridingDisk overridingPlan.overrides :=
    overridesThere_of_find (by decide +kernel)
  obtain ⟨files, hpreview, -⟩ := exists_ok_of_check (fun _ => True)
    (show (overridingPlan.preview.run.run overridingDisk).1.toOption.any _ = true by
      decide +kernel)
  obtain ⟨report, hreport, hskipped⟩ := exists_ok_of_check
    (fun report : ModuleReport => report.skipped.length = 5)
    (show (overridingPlan.generate.run.run overridingDisk).1.toOption.any _ = true by
      decide +kernel)
  have hrun : overridingPlan.generate.run.run overridingDisk
      = (.ok report, (overridingPlan.generate.run.run overridingDisk).2) :=
    Prod.ext hreport rfl
  exact ⟨files, report, _, htree, hthere, hpreview, hrun, hskipped,
    generated_eq_filter_preview overridingPlan htree hthere hpreview hrun⟩

/-! ## A link among the templates -/

section Links

variable {linked : LinkedDisk} {directory : String}

/-- With links, too, filling in a template changes nothing. -/
theorem runLinked_fill (hoverrides : plan.overrides = some directory)
    (template : ModuleTemplate) (linked : LinkedDisk) :
    ((plan.fill template).run.runLinked linked).2 = linked := by
  obtain ⟨text, hload⟩ : ∃ text : Except Failure String,
      (loadTemplate (some directory) template.name template.builtin).run.runLinked linked
        = (text, linked) :=
    ⟨_, runLinked_loadTemplate linked directory template.name template.builtin⟩
  rw [ModulePlan.fill, hoverrides, Attempt.runLinked_bind, hload]
  cases text <;> rfl

/-- Where no file overrides a template, the built-in one is filled in. -/
theorem runLinked_fill_builtin (hoverrides : plan.overrides = some directory)
    {template : ModuleTemplate}
    (hnone : (linked.find (Path.join directory template.name)).toOption = none) :
    (plan.fill template).run.runLinked linked
      = (.ok (plan.fileOf template template.builtin), linked) := by
  rw [ModulePlan.fill, hoverrides, Attempt.runLinked_bind, runLinked_loadTemplate]
  cases hfind : linked.find (Path.join directory template.name) with
  | ok entry => rw [hfind] at hnone; cases hnone
  | error reason => rfl

/-- A preview shows the built-in template where no file overrides it. -/
theorem builtin_mem_preview (hoverrides : plan.overrides = some directory)
    {template : ModuleTemplate}
    (hnone : (linked.find (Path.join directory template.name)).toOption = none)
    {templates : List ModuleTemplate} (hmem : template ∈ templates) {files : List ModuleFile}
    (h : ((plan.previewOf templates).run.runLinked linked).1 = .ok files) :
    plan.fileOf template template.builtin ∈ files := by
  induction templates generalizing files with
  | nil => cases hmem
  | cons other rest ih =>
      rw [ModulePlan.previewOf] at h
      obtain ⟨file, hfill, h⟩ := Attempt.of_runLinked_bind h
      rw [runLinked_fill hoverrides] at h
      obtain ⟨others, hrest, h⟩ := Attempt.of_runLinked_bind h
      obtain rfl : file :: others = files := Except.ok.inj h
      rcases List.mem_cons.mp hmem with rfl | hmem
      · rw [runLinked_fill_builtin hoverrides hnone] at hfill
        obtain rfl := Except.ok.inj hfill
        exact List.mem_cons_self ..
      · exact List.mem_cons_of_mem _ (ih hmem hrest)

/-- If a template that no file overrides before is not skipped, and what is generated has
    nothing of its built-in text, then generating differs from the preview. -/
theorem generated_ne_filter_of_builtin (hoverrides : plan.overrides = some directory)
    {template : ModuleTemplate} (htemplate : template ∈ ModuleTemplate.all)
    (hnone : (linked.find (Path.join directory template.name)).toOption = none)
    {files : List ModuleFile} (hpreview : (plan.preview.run.runLinked linked).1 = .ok files)
    {report : ModuleReport} (hkept : template.outputPath plan.name ∉ report.skipped)
    (hother : ∀ file ∈ report.generated,
      file.content ≠ fillTemplate template.builtin plan.name plan.fields) :
    report.generated ≠ files.filter (fun file => file.path ∉ report.skipped) := by
  intro hsame
  have hmem : plan.fileOf template template.builtin ∈ report.generated := by
    rw [hsame]
    exact List.mem_filter.mpr ⟨builtin_mem_preview hoverrides hnone htemplate hpreview,
      decide_eq_true hkept⟩
  exact hother _ hmem rfl

end Links

theorem head?_listService : Template.listService.toList.head? = some 'i' := by
  rw [Template.listService, Template.ofLines, String.toList_ofList, List.flatMap_cons]
  rfl

/-- A project with users, whose files are there already but for the two that delete and list
    them, and a directory of overriding templates: one for deleting, and one for listing,
    which is a link to the file that deletes users. -/
def linkedDisk : LinkedDisk :=
  ⟨⟨Ordered.ofList ([(["src"], .directory), (["src", "services"], .directory),
      (["src", "services", "UserServices"], .directory), (["src", "controllers"], .directory),
      (["src", "routes"], .directory), (["tpl"], .directory), (["tpl", "services"], .directory),
      (["tpl", "services", "service.delete.ts.tpl"], .file "// gone".toUTF8)]
      ++ (ModuleTemplate.all.drop 2).map fun template =>
        (template.outputNames "user", .file ByteArray.empty)), []⟩,
    Ordered.ofList [(["tpl", "services", "service.list.ts.tpl"],
      "../../src/services/UserServices/DeleteUserService.ts")]⟩

theorem not_isBlankName_user : isBlankName "user" = false := by decide +kernel

/-- A plan for the users, with the templates of that directory. -/
def linkedPlan : ModulePlan := ⟨"user", "", some "tpl", none, not_isBlankName_user⟩

/-- The preview shows the built-in template for listing; when it is loaded for generating, the
    file that deletes users is there, and the link leads to it. -/
theorem generated_ne_filter_preview_linked :
    linkedDisk.disk.IsTree
      ∧ (linkedDisk.find "tpl").toOption = some .directory
      ∧ ∃ (files : List ModuleFile) (report : ModuleReport),
          (linkedPlan.preview.run.runLinked linkedDisk).1 = .ok files
            ∧ (linkedPlan.generate.run.runLinked linkedDisk).1 = .ok report
            ∧ report.generated ≠ files.filter (fun file => file.path ∉ report.skipped) := by
  have hlist : ⟨"services/service.list.ts.tpl", .services, "list", Template.listService⟩
      ∈ ModuleTemplate.all := by
    simp [ModuleTemplate.all]
  obtain ⟨files, hpreview, -⟩ := exists_ok_of_check (fun _ => True)
    (show (linkedPlan.preview.run.runLinked linkedDisk).1.toOption.any _ = true by decide +kernel)
  obtain ⟨report, hrun, hkept, hheads⟩ := exists_ok_of_check
    (fun report : ModuleReport =>
      "src/services/UserServices/ListUserService.ts" ∉ report.skipped
        ∧ ∀ file ∈ report.generated, file.content.toList.head? = some '/')
    (show (linkedPlan.generate.run.runLinked linkedDisk).1.toOption.any _ = true by decide +kernel)
  refine ⟨by decide +kernel, by decide +kernel, files, report, hpreview, hrun,
    generated_ne_filter_of_builtin rfl hlist (by decide +kernel) hpreview hkept ?_⟩
  -- what is generated begins with a slash, the built-in text does not
  intro file hfile hsame
  have hhead := hheads file hfile
  rw [hsame, head?_fillTemplate head?_listService (by decide)] at hhead
  cases hhead

end Stencil.Project
