import Stencil.Proofs.Files.Confined
import Stencil.Proofs.Project.Accounts
import Stencil.Proofs.Project.ModuleFiles
import Stencil.Proofs.Template.Bounds

/-! # Inside the project

    What generating a module adds to a disk, whether it succeeds or fails, are the
    files of the module and directories on the way to them (`confined_generateOf`).
    If the spellings of the module name stay near, these lie below the sources of the
    project, but for directories on the way to the root of the project itself
    (`generate_inside`). -/

namespace Stencil.Project

open Files (Disk Entry Job Location follow follow_append)
open Stencil.Path (StaysWithin descend staysWithin_cons)

/-! ## Generating is confined -/

section Confined

variable {ways targets : String → Prop} {α β : Type}

theorem Attempt.confined_bind {x : Attempt α} {f : α → Attempt β}
    (h : x.run.Confined ways targets) (hf : ∀ a, (f a).run.Confined ways targets) :
    (x >>= f).run.Confined ways targets := by
  rw [ExceptT.run_bind]
  refine h.bind fun outcome => ?_
  cases outcome with
  | error failure => exact trivial
  | ok a => exact hf a

theorem Attempt.confined_lift {job : Job α} (h : job.Confined ways targets) :
    (liftM job : Attempt α).run.Confined ways targets :=
  h.bind fun _ => trivial

/-- Writing a new file makes directories on the way to it, and the file. -/
theorem confined_writeNewFile {root path : String}
    (hways : ∀ way ∈ waysTo (Path.join root path), ways way)
    (htarget : targets (Path.join root path)) (text : String) :
    (writeNewFile root path text).run.Confined ways targets := by
  rw [writeNewFile]
  refine Attempt.confined_bind ((makesOnly_makeParent _).confined hways) fun _ => ?_
  refine Attempt.confined_bind (Attempt.confined_lift ⟨htarget, fun _ => trivial⟩) fun answer => ?_
  cases answer with
  | ok _ => exact trivial
  | error reason => cases reason <;> exact trivial

/-- Loading a template makes nothing. -/
theorem confined_loadTemplate (overrides : Option String) (name builtin : String) :
    (loadTemplate overrides name builtin).run.Confined ways targets := by
  cases overrides with
  | none => exact trivial
  | some directory =>
      rw [loadTemplate]
      refine Attempt.confined_bind (Attempt.confined_lift fun _ => trivial) fun isFile => ?_
      cases isFile with
      | false => exact trivial
      | true =>
          refine Attempt.confined_bind (Attempt.confined_lift fun _ => trivial) fun answer => ?_
          cases answer <;> exact trivial

/-- Generating files makes these and the directories on the way to them. -/
theorem confined_generateOf (plan : ModulePlan) {templates : List ModuleTemplate}
    (h : ∀ template ∈ templates,
      (∀ way ∈ waysTo (outputFile plan.root plan.name template), ways way)
        ∧ targets (outputFile plan.root plan.name template)) :
    (plan.generateOf templates).run.Confined ways targets := by
  induction templates with
  | nil => exact trivial
  | cons template rest ih =>
      obtain ⟨hways, htarget⟩ := h template (List.mem_cons_self ..)
      have hrest := ih fun other hother => h other (List.mem_cons_of_mem _ hother)
      rw [ModulePlan.generateOf]
      refine Attempt.confined_bind (Attempt.confined_lift fun _ => trivial) fun there => ?_
      cases there with
      | true => exact Attempt.confined_bind hrest fun _ => trivial
      | false =>
          rw [if_neg Bool.false_ne_true, ModulePlan.fill, bind_assoc]
          refine Attempt.confined_bind (confined_loadTemplate _ _ _) fun text => ?_
          rw [pure_bind]
          refine Attempt.confined_bind (confined_writeNewFile hways htarget _) fun outcome => ?_
          cases outcome with
          | written => exact Attempt.confined_bind hrest fun _ => trivial
          | alreadyThere => exact Attempt.confined_bind hrest fun _ => trivial

end Confined

/-! ## Places below a directory -/

/-- Names that stay within a directory lead to places below it. -/
theorem follow_of_staysWithin {names : List String} (place below : Location)
    (h : StaysWithin below.length names) :
    ∃ below' : Location, follow (place ++ below) names = place ++ below' := by
  induction names generalizing below with
  | nil => exact ⟨below, rfl⟩
  | cons name names ih =>
      obtain ⟨level, hlevel, hrest⟩ := staysWithin_cons.mp h
      show ∃ below', follow (Files.walk (place ++ below) name) names = _
      rw [descend] at hlevel
      rw [Files.walk]
      by_cases hdot : name = "."
      · rw [if_pos hdot] at hlevel ⊢
        cases hlevel
        exact ih below hrest
      rw [if_neg hdot] at hlevel ⊢
      by_cases hup : name = ".."
      · rw [if_pos hup] at hlevel ⊢
        by_cases hempty : below.length = 0
        · rw [if_pos hempty] at hlevel
          cases hlevel
        · rw [if_neg hempty] at hlevel
          cases hlevel
          rw [← List.length_dropLast] at hrest
          rw [List.dropLast_append_of_ne_nil (fun hnil => hempty (congrArg List.length hnil))]
          exact ih below.dropLast hrest
      · rw [if_neg hup] at hlevel ⊢
        cases hlevel
        rw [List.append_assoc]
        refine ih (below ++ [name]) ?_
        rw [List.length_append]
        exact hrest

variable {disk : Disk} {root module : String}

/-- The place that a root leads to. -/
def rootPlace (disk : Disk) (root : String) : Location :=
  follow (disk.startOf root) (Path.names root)

/-- Whether a place lies below the sources in a root. -/
def InSources (disk : Disk) (root : String) (place : Location) : Prop :=
  ∃ below : Location, place = rootPlace disk root ++ "src" :: below

/-- Whether a place is passed on the way to a root, or is the root. -/
def OnWayToRoot (disk : Disk) (root : String) (place : Location) : Prop :=
  ∃ before after : List String, Path.names root = before ++ after
    ∧ place = follow (disk.startOf root) before

/-- Names in the sources lead to a place below them. -/
theorem inSources_of_names {names : List String} (h : StaysWithin 0 names) :
    InSources disk root (follow (disk.startOf root) (Path.names root ++ "src" :: names)) := by
  obtain ⟨below, hbelow⟩ := follow_of_staysWithin (rootPlace disk root ++ ["src"]) [] h
  refine ⟨below, ?_⟩
  have hdown : follow (rootPlace disk root) ["src"] = rootPlace disk root ++ ["src"] :=
    Files.follow_of_no_dots (by decide) _
  rw [List.append_nil, List.append_assoc, List.singleton_append] at hbelow
  rw [← hbelow, ← hdown, rootPlace, ← follow_append, ← follow_append]
  rfl

variable {template : ModuleTemplate}

/-- A file whose path stays within the sources lies there. -/
theorem inSources_outputPlace (h : WithinSources (template.outputPath module)) :
    InSources disk root (outputPlace disk root module template) := by
  obtain ⟨hrelative, names, hnames, hwithin⟩ := h
  have hstart : disk.startOf (outputFile root module template) = disk.startOf root := by
    rw [Disk.startOf, Disk.startOf, outputFile, Path.isAbsolute_join root hrelative]
  rw [outputPlace, hstart, outputFile, Path.names_join root hrelative, hnames]
  exact inSources_of_names hwithin

/-- The directories on the way to such a file lie there, or on the way to the root. -/
theorem inSources_way (h : WithinSources (template.outputPath module)) {way : String}
    (hway : way ∈ waysTo (outputFile root module template)) :
    InSources disk root (follow (disk.startOf way) (Path.names way))
      ∨ OnWayToRoot disk root (follow (disk.startOf way) (Path.names way)) := by
  obtain ⟨hrelative, names, hnames, hwithin⟩ := h
  obtain ⟨hstart, more, hmore, -⟩ := names_of_mem_waysTo hway
  have hbegin : disk.startOf way = disk.startOf root := by
    rw [Disk.startOf, hstart, outputFile, Path.isAbsolute_join root hrelative]
    rfl
  rw [outputFile, Path.names_join root hrelative, hnames] at hmore
  rw [hbegin]
  rcases List.append_eq_append_iff.mp hmore with ⟨rest, hroot, -⟩ | ⟨below, hbelow, hout⟩
  · exact Or.inr ⟨Path.names way, rest, hroot, rfl⟩
  · -- the names go on below the root
    cases below with
    | nil =>
        rw [List.append_nil] at hbelow
        exact Or.inr ⟨Path.names way, [], by rw [List.append_nil, hbelow], rfl⟩
    | cons name below =>
        rw [List.cons_append, List.cons.injEq] at hout
        obtain ⟨rfl, rfl⟩ := hout
        rw [hbelow]
        exact Or.inl (inSources_of_names hwithin.front)

/-! ## The whole module -/

/-- **Generation stays inside the project.**  The spellings of a module name without a
    slash stay near; and if those of a module name do:

    * the path of each file of the module is relative, and from the sources it never
      leads out of them;
    * all that generating the module adds to a disk, whether it succeeds or fails, lies
      below the sources in the root of the project, or is a directory on the way to that
      root. -/
theorem generate_inside (module : String) :
    ('/' ∉ module.toList → SpellingsNear module)
      ∧ (SpellingsNear module →
        (∀ template ∈ ModuleTemplate.all, WithinSources (template.outputPath module))
          ∧ ∀ (plan : ModulePlan) (disk : Disk), plan.name = module →
              ∀ (place : Location) (entry : Entry),
                Disk.entry? (plan.generate.run.run disk).2 place = some entry →
                disk.entry? place = some entry ∨ InSources disk plan.root place
                  ∨ entry = .directory ∧ OnWayToRoot disk plan.root place) := by
  refine ⟨spellingsNear_of_not_mem, fun hnear => ?_⟩
  have hout : ∀ template ∈ ModuleTemplate.all, WithinSources (template.outputPath module) :=
    fun template htemplate => ModuleTemplate.outputPath_within htemplate hnear
  refine ⟨hout, ?_⟩
  rintro plan disk rfl place entry hentry
  -- directories are asked for on the way to files, and files where they go
  have hconfined : plan.generate.run.Confined
      (fun way => ∃ template ∈ ModuleTemplate.all,
        way ∈ waysTo (outputFile plan.root plan.name template))
      (fun path => ∃ template ∈ ModuleTemplate.all,
        path = outputFile plan.root plan.name template) :=
    confined_generateOf plan fun template htemplate =>
      ⟨fun way hway => ⟨template, htemplate, hway⟩, template, htemplate, rfl⟩
  rcases hconfined.addsAt disk place entry hentry with
    hthere | ⟨hdirectory, way, ⟨template, htemplate, hway⟩, hplace⟩
      | ⟨path, ⟨template, htemplate, hpath⟩, hplace⟩
  · exact Or.inl hthere
  · rw [hplace]
    rcases inSources_way (hout template htemplate) hway with hinside | hroot
    · exact Or.inr (Or.inl hinside)
    · exact Or.inr (Or.inr ⟨hdirectory, hroot⟩)
  · rw [hplace, hpath]
    exact Or.inr (Or.inl (inSources_outputPlace (hout template htemplate)))

/-- A plan that stays near, though it leads up. -/
def adminPlan : ModulePlan := ⟨"../admin", "app", none, none, by decide +kernel⟩

/-- Its files go to the sources, and nothing it adds goes anywhere else. -/
theorem generate_inside_admin :
    SpellingsNear "../admin"
      ∧ (∀ template ∈ ModuleTemplate.all, WithinSources (template.outputPath "../admin"))
      ∧ ∀ (place : Location) (entry : Entry),
          Disk.entry? (adminPlan.generate.run.run Disk.empty).2 place = some entry →
          Disk.empty.entry? place = some entry ∨ InSources Disk.empty adminPlan.root place
            ∨ entry = .directory ∧ OnWayToRoot Disk.empty adminPlan.root place := by
  have hnear : SpellingsNear "../admin" := by decide +kernel
  obtain ⟨hout, hinside⟩ := (generate_inside "../admin").2 hnear
  exact ⟨hnear, hout, hinside adminPlan Disk.empty rfl⟩

/-- A plan whose name begins with a slash. -/
def slashPlan : ModulePlan := ⟨"/x", "app", none, none, by decide +kernel⟩

/-- Below a new root the posts are generated, and the directory that the root lies in is
    made for them. -/
theorem directory_of_new_root : ∃ (report : ModuleReport) (final : Disk),
    (postPlan "new/app").generate.run.run Disk.empty = (.ok report, final)
      ∧ final.entry? ["new"] = some .directory := by
  have hpast : ModuleTemplate.all.Pairwise fun template _ =>
      GoesPast Disk.empty "new/app" (outputPlace Disk.empty "new/app" "post" template) := by
    have hparts : ModuleTemplate.all.Pairwise fun template _ =>
        ∀ n ≤ (Path.names "new/app").length, follow [] ((Path.names "new/app").take n)
          ≠ follow [] (Path.names "new/app") ++ template.outputNames "post" := by
      decide +kernel
    refine hparts.imp_of_mem fun {template _} htemplate _ h => goesPast_of_take ?_
    rw [outputPlace_eq htemplate (by decide)]
    exact h
  obtain ⟨report, final, hrun⟩ := run_generateOf_of_room (postPlan "new/app") rfl (by decide)
    (fun _ h => h) hpast (room_posts (by decide +kernel) (by decide))
  have hgrows := Job.grows_run Disk.empty ((postPlan "new/app").generateOf ModuleTemplate.all).run
  rw [hrun] at hgrows
  refine ⟨report, final, hrun, ?_⟩
  have hpath : "src/controllers/PostController.ts"
      ∈ ModuleTemplate.all.map (·.outputPath (postPlan "new/app").name) := by
    decide +kernel
  obtain ⟨entry, hfind⟩ := (accounts_of_generateOf hrun).find _ hpath
  have hnames : Path.names (Path.join (postPlan "new/app").root "src/controllers/PostController.ts")
      = "new" :: ["app", "src", "controllers"] ++ ["PostController.ts"] := by
    decide +kernel
  have hdirectory := Disk.directory_of_find hnames (by decide) hfind
  rw [Disk.startOf, if_neg (by decide), hgrows.here] at hdirectory
  exact hdirectory

/-- Not everything lies below the root: with a name that begins with a slash a path is
    absolute, and its file stands beside the root; and for a new root, the directory that
    it lies in is made. -/
theorem generate_outside :
    (∃ template ∈ ModuleTemplate.all,
        Path.isAbsolute (template.outputPath slashPlan.name) = true)
      ∧ (Disk.entry? (slashPlan.generate.run.run Disk.empty).2 ["XController.ts"]).isSome = true
      ∧ Disk.empty.entry? ["XController.ts"] = none
      ∧ ¬ rootPlace Disk.empty slashPlan.root <+: ["XController.ts"]
      ∧ (∃ (report : ModuleReport) (final : Disk),
          (postPlan "new/app").generate.run.run Disk.empty = (.ok report, final)
            ∧ final.entry? ["new"] = some .directory)
      ∧ Disk.empty.entry? ["new"] = none
      ∧ ¬ rootPlace Disk.empty "new/app" <+: ["new"] := by
  have habsolute : ∃ template ∈ ModuleTemplate.all,
      Path.isAbsolute (template.outputPath slashPlan.name) = true := by
    decide +kernel
  have hfile : (Disk.entry? (slashPlan.generate.run.run Disk.empty).2
      ["XController.ts"]).isSome = true := by
    decide +kernel
  exact ⟨habsolute, hfile, rfl, by decide +kernel, directory_of_new_root, rfl, by decide +kernel⟩

end Stencil.Project
