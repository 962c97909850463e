import Stencil.Files.Links
import Stencil.Proofs.Project.AnyOrder

/-! # Runs that commute

    Two modules whose spellings differ have their files apart, and so have a module and a
    server (`apart_modules`, `apart_server_module`).  Making one and then the other is
    laying out the files of both, which can be done in any order.  So the two runs can be
    swapped: both orders give the same reports and the same disk (`scaffolding_commutes`).

    There is one proviso.  Setting up a server makes the directories of the root, so that
    a module that follows finds the files that are there behind these directories, and
    leaves their templates alone.  If the module comes first, the template of its first
    file must be readable, or the root there already.

    A disk has no symbolic links.  With one, the directory that a module makes may be where
    the files of another go, which then cannot come first (`not_swaps_detour_dangling`). -/

namespace Stencil.Project

open Files (Disk Entry Job LinkedDisk Location)

variable {disk mid later final : Disk} {root : String} {α β : Type}

/-! ## Swapping -/

/-- Whether two attempts succeed in turn, with these results and this disk in the end. -/
def InTurn (disk : Disk) (x : Attempt α) (y : Attempt β) (a : α) (b : β) (final : Disk) : Prop :=
  ∃ mid : Disk, x.run.run disk = (.ok a, mid) ∧ y.run.run mid = (.ok b, final)

/-- Whether two attempts that succeed in turn can be swapped, with the same results and the
    same disk in the end. -/
def Swaps (disk : Disk) (x : Attempt α) (y : Attempt β) : Prop :=
  ∀ (a : α) (b : β) (final : Disk), InTurn disk x y a b final →
    ∃ final' : Disk, InTurn disk y x b a final' ∧ final.Same final'

theorem inTurn_of_isOk {x : Attempt α} {y : Attempt β}
    (h : ((do return (← x, ← y) : Attempt (α × β)).run.run disk).1.isOk = true) :
    ∃ (a : α) (b : β) (final : Disk), InTurn disk x y a b final := by
  rw [Attempt.run_bind] at h
  cases hx : x.run.run disk with
  | mk outcome mid =>
      rw [hx] at h
      cases outcome with
      | error failure => cases h
      | ok a =>
          change ((do return (a, ← y) : Attempt (α × β)).run.run mid).1.isOk = true at h
          rw [Attempt.run_map] at h
          cases hy : y.run.run mid with
          | mk outcome final =>
              rw [hy] at h
              cases outcome with
              | error failure => cases h
              | ok b => exact ⟨a, b, final, mid, hx, hy⟩

/-- Whether an attempt lays out items, on a disk and wherever its templates are spared, and
    gives a report on what became of them. -/
def LaysOut (disk : Disk) (root : String) (items : List Item)
    (report : List (Option String) → α) (x : Attempt α) : Prop :=
  ∀ later : Disk, SparesTemplates disk later →
    x.run.run later = Prod.map (Except.map report) id (layOut root items later)

/-- Whether the paths of some files lead down below a root, and none of them is that of a
    template. -/
def Regular (root : String) (items : List Item) : Prop :=
  ∀ item ∈ items,
    LeadsDown item.path ∧ ¬ EndsAsTemplate (Path.names (Path.join root item.path))

theorem Regular.append {items items' : List Item} (h : Regular root items)
    (h' : Regular root items') : Regular root (items ++ items') := by
  intro item hitem
  rcases List.mem_append.mp hitem with hleft | hright
  · exact h item hleft
  · exact h' item hright

theorem spares_layOut {items : List Item} (hregular : Regular root items) (disk : Disk) :
    SparesTemplates disk (layOut root items disk).2 := by
  induction items generalizing disk with
  | nil => exact SparesTemplates.refl disk
  | cons item rest ih =>
      have hone := spares_layOne disk (hregular item (List.mem_cons_self ..)).2
      rw [layOut]
      cases hresult : layOne root item disk with
      | mk outcome mid =>
          rw [hresult] at hone
          cases outcome with
          | error failure => exact hone
          | ok result =>
              exact hone.trans (ih (fun other hother =>
                hregular other (List.mem_cons_of_mem _ hother)) mid)

section Swaps

variable {x : Attempt α} {y : Attempt β} {items items' : List Item}
  {report : List (Option String) → α} {report' : List (Option String) → β}

/-- Attempts that lay out items succeed in turn if the items of both can be laid out. -/
theorem LaysOut.inTurn_iff (hx : LaysOut disk root items report x)
    (hy : LaysOut disk root items' report' y) (hregular : Regular root items) {a : α} {b : β} :
    InTurn disk x y a b final ↔ ∃ first second : List (Option String),
      layOut root (items ++ items') disk = (.ok (first ++ second), final)
        ∧ first.length = items.length ∧ a = report first ∧ b = report' second := by
  have hspares := spares_layOut hregular disk
  constructor
  · rintro ⟨mid, hrunx, hruny⟩
    rw [hx disk (SparesTemplates.refl disk)] at hrunx
    obtain ⟨first, hfirst, rfl⟩ := Attempt.of_run_map hrunx
    rw [hfirst] at hspares
    rw [hy mid hspares] at hruny
    obtain ⟨second, hsecond, rfl⟩ := Attempt.of_run_map hruny
    exact ⟨first, second, layOut_append_eq_ok_iff.mpr ⟨first, second, mid, hfirst, hsecond, rfl⟩,
      length_of_layOut hfirst, rfl, rfl⟩
  · rintro ⟨first, second, hboth, hlength, rfl, rfl⟩
    obtain ⟨first', second', mid, hfirst, hsecond, hresults⟩ := layOut_append_eq_ok_iff.mp hboth
    obtain ⟨rfl, rfl⟩ :=
      List.append_inj hresults (by rw [hlength, length_of_layOut hfirst])
    rw [hfirst] at hspares
    refine ⟨mid, ?_, ?_⟩
    · rw [hx disk (SparesTemplates.refl disk), hfirst]
      rfl
    · rw [hy mid hspares, hsecond]
      rfl

/-- Attempts that lay out items whose paths are apart can be swapped, if the first item of
    the second does not fail for want of a root. -/
theorem LaysOut.swaps (htree : disk.IsTree) (hx : LaysOut disk root items report x)
    (hy : LaysOut disk root items' report' y) (hregular : Regular root items)
    (hregular' : Regular root items')
    (hapart : (items ++ items').Pairwise fun item item' => Apart item.path item'.path)
    (hstart : ∀ (results : List (Option String)) (mid : Disk),
      layOut root items disk = (.ok results, mid) →
      disk.Reaches root ∨ ∀ item ∈ items'.head?, item.asks = true →
        ∃ text : String, item.text = .ok text) :
    Swaps disk x y := by
  have hdown : ∀ item ∈ items ++ items', LeadsDown item.path := fun item hitem =>
    (hregular.append hregular' item hitem).1
  intro a b final hturn
  obtain ⟨first, second, hboth, hlength, rfl, rfl⟩ := (hx.inTurn_iff hy hregular).mp hturn
  have hstart' : disk.Reaches root ∨ ∀ item ∈ (items' ++ items).head?, item.asks = true →
      ∃ text : String, item.text = .ok text := by
    obtain ⟨first', -, mid, hfirst, -, -⟩ := layOut_append_eq_ok_iff.mp hboth
    cases items' with
    | nil => exact start_of_layOut (fun item hitem => (hregular item hitem).1) hfirst
    | cons item rest => exact hstart first' mid hfirst
  -- the results of both orders are the fates
  obtain ⟨hfates, -⟩ := settles_of_layOut (Disk.Grows.refl disk) htree hdown hapart
    (fun item _ => unspoilt_self _ _ _) hboth
  rw [List.map_append] at hfates
  obtain ⟨rfl, rfl⟩ := List.append_inj hfates (by rw [List.length_map, hlength])
  obtain ⟨final', hswapped, hsame⟩ :=
    layOut_of_perm htree List.perm_append_comm hdown hapart hstart' hboth
  rw [List.map_append] at hswapped
  exact ⟨final', (hy.inTurn_iff hx hregular').mpr
    ⟨_, _, hswapped, List.length_map _, rfl, rfl⟩, hsame⟩

/-- Attempts that lay out items succeed in turn where there is room for all of them. -/
theorem LaysOut.inTurn_of_room (hx : LaysOut disk root items report x)
    (hy : LaysOut disk root items' report' y) (hregular : Regular root items)
    (hregular' : Regular root items')
    (hapart : (items ++ items').Pairwise fun item item' => Apart item.path item'.path)
    (hroot : ∀ item ∈ items ++ items', ¬ OnWayToRoot disk root (filePlace disk root item.path))
    (htexts : ∀ item ∈ items ++ items', ∃ text : String, item.text = .ok text)
    (hroom : ∀ item ∈ items ++ items', Room disk (Path.join root item.path)) :
    ∃ (a : α) (b : β) (final : Disk), InTurn disk x y a b final := by
  obtain ⟨results, final, hboth⟩ := layOut_of_room
    (fun item hitem => (hregular.append hregular' item hitem).1) hapart hroot htexts hroom
  obtain ⟨first, second, mid, hfirst, -, rfl⟩ := layOut_append_eq_ok_iff.mp hboth
  exact ⟨_, _, final, (hx.inTurn_iff hy hregular).mpr
    ⟨first, second, hboth, length_of_layOut hfirst, rfl, rfl⟩⟩

end Swaps

/-! ## Paths apart -/

theorem leadsDown_outputPath {template : ModuleTemplate} (h : template ∈ ModuleTemplate.all)
    {module : String} (hmodule : '/' ∉ module.toList) :
    LeadsDown (template.outputPath module)
      ∧ Path.names (template.outputPath module) = template.outputNames module := by
  obtain ⟨base, name, hpath, hname, hbase, hnames, hdots⟩ :=
    ModuleTemplate.outputPath_eq_join h hmodule
  have hsame : Path.names (template.outputPath module) = template.outputNames module := by
    rw [hpath, hname.names_join, hnames]
  refine ⟨⟨?_, ?_, ?_, ?_⟩, hsame⟩
  · rw [hpath, Path.isAbsolute_join base hname.relative.1, hbase]
  · rw [hsame]
    exact ModuleTemplate.outputNames_no_dots h hmodule
  · obtain ⟨last, hlast, -⟩ := ModuleTemplate.getLast?_outputNames h hmodule
    exact ⟨last, hsame ▸ hlast⟩
  · rw [hpath, Path.endsInSlash_join base hname.ne.1 hname.relative.1, hname.relative.2]

/-- The files of one module are apart. -/
theorem apart_module {module : String} (hmodule : '/' ∉ module.toList) :
    ModuleTemplate.all.Pairwise fun template template' =>
      Apart (template.outputPath module) (template'.outputPath module) := by
  have hbegins : ∀ template template' : ModuleTemplate,
      template.outputNames module ≠ template'.outputNames module →
      ¬ template.outputNames module <+: template'.outputNames module := by
    rintro template template' hne ⟨more, hmore⟩
    by_cases hnil : more = []
    · exact hne (by rw [← hmore, hnil, List.append_nil])
    · exact ModuleTemplate.outputNames_not_prefix template' template module hnil hmore.symm
  refine (ModuleTemplate.pairwise_outputNames module).imp_of_mem
    fun {template template'} h h' hne => ?_
  rw [Apart, (leadsDown_outputPath h hmodule).2, (leadsDown_outputPath h' hmodule).2]
  exact ⟨hbegins template template' hne, hbegins template' template hne.symm⟩

/-- The files of two modules are apart, if the spellings of their names differ. -/
theorem apart_modules {template template' : ModuleTemplate} (h : template ∈ ModuleTemplate.all)
    (h' : template' ∈ ModuleTemplate.all) {module module' : String}
    (hmodule : '/' ∉ module.toList) (hmodule' : '/' ∉ module'.toList)
    (hpascal : pascalCase module ≠ pascalCase module')
    (hlower : Text.lowerCase module ≠ Text.lowerCase module') :
    Apart (template.outputPath module) (template'.outputPath module') := by
  rw [Apart, (leadsDown_outputPath h hmodule).2, (leadsDown_outputPath h' hmodule').2]
  exact ⟨ModuleTemplate.outputNames_not_prefix_of_ne template template' hpascal hlower,
    ModuleTemplate.outputNames_not_prefix_of_ne template' template hpascal.symm hlower.symm⟩

instance (path path' : String) : Decidable (Apart path path') :=
  inferInstanceAs (Decidable (_ ∧ _))

/-- The files of a server are apart, and their paths lead down. -/
theorem apart_server : ServerFile.all.Pairwise (fun file file' => Apart file.output file'.output)
    ∧ ∀ file ∈ ServerFile.all, LeadsDown file.output := by
  constructor
  · decide +kernel
  · have hpaths : ∀ file ∈ ServerFile.all, Path.isAbsolute file.output = false
        ∧ (∀ name ∈ Path.names file.output, name ≠ "." ∧ name ≠ "..")
        ∧ (Path.names file.output).getLast?.isSome = true
        ∧ Path.endsInSlash file.output = false := by
      decide +kernel
    intro file hfile
    obtain ⟨hrelative, hdots, hlast, hslash⟩ := hpaths file hfile
    exact ⟨hrelative, hdots, Option.isSome_iff_exists.mp hlast, hslash⟩

/-- Paths that part ways below their first directory are apart. -/
theorem apart_of_second {path path' second second' : String}
    (h : (Path.names path)[1]? = some second) (h' : (Path.names path')[1]? = some second')
    (hne : second ≠ second') : Apart path path' := by
  have hbegins : ∀ {names names' : List String} {name name' : String}, names[1]? = some name →
      names'[1]? = some name' → name ≠ name' → ¬ names <+: names' := by
    rintro names names' name name' hname hname' hne ⟨more, rfl⟩
    rw [List.getElem?_append_left (List.getElem?_eq_some_iff.mp hname).1, hname] at hname'
    exact hne (Option.some.inj hname')
  exact ⟨hbegins h h' hne, hbegins h' h hne.symm⟩

/-- The files of a server are apart from those of a module. -/
theorem apart_server_module {file : ServerFile} (hfile : file ∈ ServerFile.all)
    {template : ModuleTemplate} (h : template ∈ ModuleTemplate.all) {module : String}
    (hmodule : '/' ∉ module.toList) : Apart file.output (template.outputPath module) := by
  have hserver : ∀ file ∈ ServerFile.all, ∃ second ∈ (Path.names file.output)[1]?,
      second ≠ "services" ∧ second ≠ "controllers" ∧ second ≠ "routes" := by
    decide +kernel
  obtain ⟨second, hsecond, hservices, hcontrollers, hroutes⟩ := hserver file hfile
  have houtput := (leadsDown_outputPath h hmodule).2
  rw [ModuleTemplate.outputNames] at houtput
  cases hcategory : template.category with
  | services =>
      rw [hcategory] at houtput
      exact apart_of_second hsecond (by rw [houtput]; rfl) hservices
  | controllers =>
      rw [hcategory] at houtput
      exact apart_of_second hsecond (by rw [houtput]; rfl) hcontrollers
  | routes =>
      rw [hcategory] at houtput
      exact apart_of_second hsecond (by rw [houtput]; rfl) hroutes

/-! ## Modules and servers -/

variable {plan plan' : ModulePlan} {overrides : Option String}

/-- The files of a module, with the texts that its templates give on a disk. -/
def ModulePlan.items (disk : Disk) (plan : ModulePlan) : List Item :=
  ModuleTemplate.all.map (plan.item disk)

/-- The files of a server, with the texts that its templates give on a disk. -/
def serverItems (disk : Disk) (overrides : Option String) : List Item :=
  ServerFile.all.map (serverItem disk overrides)

theorem regular_items (hmodule : '/' ∉ plan.name.toList) (disk : Disk) (root : String) :
    Regular root (plan.items disk) := by
  intro item hitem
  obtain ⟨template, htemplate, rfl⟩ := List.mem_map.mp hitem
  exact ⟨(leadsDown_outputPath htemplate hmodule).1,
    not_endsAsTemplate_output template root plan.name⟩

theorem regular_serverItems (disk : Disk) (root : String) (overrides : Option String) :
    Regular root (serverItems disk overrides) := by
  intro item hitem
  obtain ⟨file, hfile, rfl⟩ := List.mem_map.mp hitem
  exact ⟨apart_server.2 file hfile, not_endsAsTemplate_server hfile root⟩

theorem pairwise_items (hmodule : '/' ∉ plan.name.toList) (disk : Disk) :
    (plan.items disk).Pairwise fun item item' => Apart item.path item'.path :=
  List.pairwise_map.mpr (apart_module hmodule)

theorem pairwise_serverItems (disk : Disk) (overrides : Option String) :
    (serverItems disk overrides).Pairwise fun item item' => Apart item.path item'.path :=
  List.pairwise_map.mpr apart_server.1

theorem apart_serverItems_items (hmodule : '/' ∉ plan.name.toList) :
    ∀ item ∈ serverItems disk overrides, ∀ item' ∈ plan.items disk,
      Apart item.path item'.path := by
  intro item hitem item' hitem'
  obtain ⟨file, hfile, rfl⟩ := List.mem_map.mp hitem
  obtain ⟨template, htemplate, rfl⟩ := List.mem_map.mp hitem'
  exact apart_server_module hfile htemplate hmodule

theorem pairwise_modules (hmodule : '/' ∉ plan.name.toList) (hmodule' : '/' ∉ plan'.name.toList)
    (hpascal : pascalCase plan.name ≠ pascalCase plan'.name)
    (hlower : Text.lowerCase plan.name ≠ Text.lowerCase plan'.name) (disk : Disk) :
    (plan.items disk ++ plan'.items disk).Pairwise fun item item' =>
      Apart item.path item'.path := by
  refine List.pairwise_append.mpr
    ⟨pairwise_items hmodule disk, pairwise_items hmodule' disk, ?_⟩
  intro item hitem item' hitem'
  obtain ⟨template, htemplate, rfl⟩ := List.mem_map.mp hitem
  obtain ⟨template', htemplate', rfl⟩ := List.mem_map.mp hitem'
  exact apart_modules htemplate htemplate' hmodule hmodule' hpascal hlower

theorem pairwise_server_module (hmodule : '/' ∉ plan.name.toList) (disk : Disk)
    (overrides : Option String) :
    (serverItems disk overrides ++ plan.items disk).Pairwise fun item item' =>
      Apart item.path item'.path :=
  List.pairwise_append.mpr ⟨pairwise_serverItems disk overrides, pairwise_items hmodule disk,
    apart_serverItems_items hmodule⟩

theorem pairwise_module_server (hmodule : '/' ∉ plan.name.toList) (disk : Disk)
    (overrides : Option String) :
    (plan.items disk ++ serverItems disk overrides).Pairwise fun item item' =>
      Apart item.path item'.path :=
  (List.perm_append_comm.pairwise_iff fun h => h.symm).mp
    (pairwise_server_module hmodule disk overrides)

theorem laysOut_generate (htree : disk.IsTree) (hthere : OverridesThere disk plan.overrides) :
    LaysOut disk plan.root (plan.items disk) (plan.reportOn ModuleTemplate.all) plan.generate :=
  fun _ hspares => run_generateOf_eq_layOut htree hthere hspares fun _ h => h

theorem laysOut_setUpServer (htree : disk.IsTree) (hthere : OverridesThere disk overrides)
    (root : String) :
    LaysOut disk root (serverItems disk overrides) (serverReportOn ServerFile.all)
      (setUpServer root overrides) :=
  fun _ hspares => run_copyServerFiles_eq_layOut htree hthere hspares fun _ h => h

/-- Whether the template of the first file of a module can be loaded. -/
def FirstLoads (disk : Disk) (overrides : Option String) : Prop :=
  ∀ template ∈ ModuleTemplate.all.head?, ∃ text : String,
    loaded disk overrides template.name template.builtin = .ok text

/-- The first file of a module has its text if its template can be loaded. -/
theorem firstLoads_iff : FirstLoads disk plan.overrides
    ↔ ∀ item ∈ (plan.items disk).head?, item.asks = true →
        ∃ text : String, item.text = .ok text := by
  have hitem : ∀ template : ModuleTemplate, (∃ text : String,
      loaded disk plan.overrides template.name template.builtin = .ok text)
        ↔ ∃ text : String, (plan.item disk template).text = .ok text := by
    intro template
    rw [ModulePlan.item, ModulePlan.filled]
    cases loaded disk plan.overrides template.name template.builtin with
    | ok text => exact ⟨fun _ => ⟨_, rfl⟩, fun _ => ⟨_, rfl⟩⟩
    | error failure =>
        constructor
        · rintro ⟨text, htext⟩
          cases htext
        · rintro ⟨text, htext⟩
          cases htext
  rw [FirstLoads, ModulePlan.items, List.head?_map]
  constructor
  · intro h item hhead _
    obtain ⟨template, htemplate, rfl⟩ := Option.map_eq_some_iff.mp hhead
    exact (hitem template).mp (h template htemplate)
  · intro h template htemplate
    exact (hitem template).mpr
      (h _ (Option.map_eq_some_iff.mpr ⟨template, htemplate, rfl⟩) rfl)

/-- **Runs commute.**  Let a disk be a tree on which the directory of overriding templates,
    if there is to be one, is there, and let a module be planned whose name has no slash.

    * If that module and then another with the same root and templates, whose name has no
      slash and other spellings, are generated, they can be swapped.
    * If the module is generated and then a server set up, they can be swapped.
    * If a server is set up and then the module generated, they can be swapped if the
      directories of the root were there before, or the template of the first file of a
      module could be loaded. -/
theorem scaffolding_commutes (htree : disk.IsTree) (plan : ModulePlan)
    (hthere : OverridesThere disk plan.overrides) (hmodule : '/' ∉ plan.name.toList) :
    (∀ plan' : ModulePlan, plan'.root = plan.root → plan'.overrides = plan.overrides →
        '/' ∉ plan'.name.toList → pascalCase plan.name ≠ pascalCase plan'.name →
        Text.lowerCase plan.name ≠ Text.lowerCase plan'.name →
        Swaps disk plan.generate plan'.generate)
      ∧ Swaps disk plan.generate (setUpServer plan.root plan.overrides)
      ∧ (disk.Reaches plan.root ∨ FirstLoads disk plan.overrides →
          Swaps disk (setUpServer plan.root plan.overrides) plan.generate) := by
  have hmodules := regular_items hmodule disk plan.root
  have hservers := regular_serverItems disk plan.root plan.overrides
  have hx := laysOut_generate htree hthere
  have hy := laysOut_setUpServer htree hthere plan.root
  refine ⟨?_, ?_, ?_⟩
  · intro plan' hroot hoverrides hmodule' hpascal hlower
    have hx' := laysOut_generate htree (hoverrides ▸ hthere)
    rw [hroot] at hx'
    refine hx.swaps htree hx' hmodules (regular_items hmodule' disk plan.root)
      (pairwise_modules hmodule hmodule' hpascal hlower disk) ?_
    -- both modules begin with the same template
    intro results mid hrun
    rw [← firstLoads_iff, hoverrides, firstLoads_iff]
    exact start_of_layOut (fun item hitem => (hmodules item hitem).1) hrun
  · refine hx.swaps htree hy hmodules hservers (pairwise_module_server hmodule disk _) ?_
    -- a server loads all its templates anyway
    intro results mid _
    refine Or.inr fun item hitem hasks => ?_
    obtain ⟨file, -, rfl⟩ := List.mem_map.mp (List.mem_of_head? hitem)
    cases hasks
  · intro hstart
    refine hy.swaps htree hx hservers hmodules (pairwise_server_module hmodule disk _) ?_
    intro results mid _
    rw [← firstLoads_iff]
    exact hstart

/-! ## On the empty disk -/

/-- A plan for the posts of a blog in the working directory. -/
def postsPlan : ModulePlan := postPlan ""

/-- A plan for its tags there. -/
def tagsPlan : ModulePlan := ⟨"tag", "", none, none, by decide +kernel⟩

/-- Whether the text of a file can be had, and there is room for it on the empty disk. -/
def Ready (item : Item) : Prop :=
  (∃ text : String, item.text = .ok text) ∧ Room Disk.empty item.path

/-- On the empty disk, attempts that lay out items in the working directory succeed in turn
    as soon as all of these are ready. -/
theorem inTurn_of_ready {x : Attempt α} {y : Attempt β} {items items' : List Item}
    {report : List (Option String) → α} {report' : List (Option String) → β}
    (hx : LaysOut Disk.empty "" items report x) (hy : LaysOut Disk.empty "" items' report' y)
    (hregular : Regular "" items) (hregular' : Regular "" items')
    (hapart : (items ++ items').Pairwise fun item item' => Apart item.path item'.path)
    (hready : ∀ item ∈ items, Ready item) (hready' : ∀ item ∈ items', Ready item) :
    ∃ (a : α) (b : β) (final : Disk), InTurn Disk.empty x y a b final := by
  have hall : ∀ item ∈ items ++ items', Ready item := by
    intro item hitem
    rcases List.mem_append.mp hitem with hleft | hright
    · exact hready item hleft
    · exact hready' item hright
  have hboth := hregular.append hregular'
  refine hx.inTurn_of_room hy hregular hregular' hapart ?_ (fun item hitem => (hall item hitem).1) ?_
  · -- the way to the working directory goes through no names
    rintro item hitem ⟨before, after, hnames, hplace⟩
    obtain ⟨rfl, -⟩ := List.append_eq_nil_iff.mp hnames.symm
    exact (hboth item hitem).1.ne_nil hplace
  · intro item hitem
    have hjoin : Path.join "" item.path = item.path := by
      rw [Path.join, (hboth item hitem).1.relative]
      exact String.empty_append
    rw [hjoin]
    exact (hall item hitem).2

theorem ready_server : ∀ item ∈ serverItems Disk.empty none, Ready item := by
  have hroom : ∀ file ∈ ServerFile.all, Room Disk.empty file.output := by decide +kernel
  intro item hitem
  obtain ⟨file, hfile, rfl⟩ := List.mem_map.mp hitem
  exact ⟨⟨file.builtin, rfl⟩, hroom file hfile⟩

/-- The posts and the tags of a blog and its server are made in either order. -/
theorem scaffolding_commutes_blog :
    (∃ (posts tags : ModuleReport) (final final' : Disk),
        InTurn Disk.empty postsPlan.generate tagsPlan.generate posts tags final
          ∧ InTurn Disk.empty tagsPlan.generate postsPlan.generate tags posts final'
          ∧ final.Same final')
      ∧ (∃ (posts : ModuleReport) (server : ServerReport) (final final' : Disk),
          InTurn Disk.empty postsPlan.generate (setUpServer "" none) posts server final
            ∧ InTurn Disk.empty (setUpServer "" none) postsPlan.generate server posts final'
            ∧ final.Same final')
      ∧ ∃ (posts : ModuleReport) (server : ServerReport) (final final' : Disk),
          InTurn Disk.empty (setUpServer "" none) postsPlan.generate server posts final
            ∧ InTurn Disk.empty postsPlan.generate (setUpServer "" none) posts server final'
            ∧ final.Same final' := by
  have hthere : OverridesThere Disk.empty none := fun directory h => by cases h
  have hposts : '/' ∉ postsPlan.name.toList := by decide
  have htags : '/' ∉ tagsPlan.name.toList := by decide
  have hpascal : pascalCase postsPlan.name ≠ pascalCase tagsPlan.name := by decide +kernel
  have hlower : Text.lowerCase postsPlan.name ≠ Text.lowerCase tagsPlan.name := by
    decide +kernel
  have hx : LaysOut Disk.empty "" (postsPlan.items Disk.empty) _ postsPlan.generate :=
    laysOut_generate Files.Disk.isTree_empty hthere
  have hx' : LaysOut Disk.empty "" (tagsPlan.items Disk.empty) _ tagsPlan.generate :=
    laysOut_generate Files.Disk.isTree_empty hthere
  have hy := laysOut_setUpServer Files.Disk.isTree_empty hthere ""
  have hrooms : ∀ template ∈ ModuleTemplate.all, Room Disk.empty (template.outputPath "post")
      ∧ Room Disk.empty (template.outputPath "tag") := by
    decide +kernel
  have hready : ∀ item ∈ postsPlan.items Disk.empty, Ready item := by
    intro item hitem
    obtain ⟨template, htemplate, rfl⟩ := List.mem_map.mp hitem
    exact ⟨⟨_, rfl⟩, (hrooms template htemplate).1⟩
  have hready' : ∀ item ∈ tagsPlan.items Disk.empty, Ready item := by
    intro item hitem
    obtain ⟨template, htemplate, rfl⟩ := List.mem_map.mp hitem
    exact ⟨⟨_, rfl⟩, (hrooms template htemplate).2⟩
  have hserver := regular_serverItems Disk.empty "" none
  have hregular := regular_items hposts Disk.empty ""
  obtain ⟨hswap, hswap', hswap''⟩ :=
    scaffolding_commutes Files.Disk.isTree_empty postsPlan hthere hposts
  refine ⟨?_, ?_, ?_⟩
  · obtain ⟨posts, tags, final, hturn⟩ := inTurn_of_ready hx hx' hregular
      (regular_items htags Disk.empty "")
      (pairwise_modules hposts htags hpascal hlower Disk.empty) hready hready'
    obtain ⟨final', hturn', hsame⟩ :=
      hswap tagsPlan rfl rfl htags hpascal hlower posts tags final hturn
    exact ⟨posts, tags, final, final', hturn, hturn', hsame⟩
  · obtain ⟨posts, server, final, hturn⟩ := inTurn_of_ready hx hy hregular hserver
      (pairwise_module_server hposts Disk.empty none) hready ready_server
    obtain ⟨final', hturn', hsame⟩ := hswap' posts server final hturn
    exact ⟨posts, server, final, final', hturn, hturn', hsame⟩
  · obtain ⟨server, posts, final, hturn⟩ := inTurn_of_ready hy hx hserver hregular
      (pairwise_server_module hposts Disk.empty none) ready_server hready
    obtain ⟨final', hturn', hsame⟩ := hswap'' (Or.inl rfl) server posts final hturn
    exact ⟨posts, server, final, final', hturn, hturn', hsame⟩

/-! ## Behind a missing directory -/

/-- A file and the directories that it lies in. -/
def entriesTo (place : Location) (content : ByteArray) : List (Location × Entry) :=
  (place.dropLast.inits.drop 1).map (·, .directory) ++ [(place, .file content)]

/-- A disk with all files of a module, and with an overriding template that is no text. -/
def madeDisk : Disk :=
  ⟨Ordered.ofList
    ((ModuleTemplate.all.flatMap fun template => entriesTo (template.outputNames "a") "old".toUTF8)
      ++ entriesTo ["tpl", "services", "service.delete.ts.tpl"] ⟨#[255]⟩), []⟩

/-- A plan for that module at a root that goes through a directory that is missing. -/
def detourPlan : ModulePlan := ⟨"a", "n/..", some "tpl", none, by decide +kernel⟩

/-- A disk with the users, but for their controller, on which a link to the directory of the
    controllers stands where the services of the tags go; that directory is missing. -/
def danglingDisk : LinkedDisk :=
  ⟨⟨Ordered.ofList ([(["src"], .directory), (["src", "services"], .directory),
      (["src", "services", "UserServices"], .directory), (["src", "routes"], .directory)]
      ++ (ModuleTemplate.all.filter (·.category ≠ .controllers)).map fun template =>
        (template.outputNames "user", .file ByteArray.empty)), []⟩,
    Ordered.ofList [(["src", "services", "TagServices"], "../controllers")]⟩

/-- A plan for the users in the working directory. -/
def usersPlan : ModulePlan := ⟨"user", "", none, none, by decide +kernel⟩

/-- If the server is set up first, that makes the missing directory, and the files of the
    module are found behind it; if the module comes first, they are not, and the template
    of the first one cannot be read.

    With a dangling link, the users make the directory that it leads to, and then the tags
    can be made; if the tags come first, their directory is refused. -/
theorem not_swaps_detour_dangling :
    (madeDisk.IsTree ∧ OverridesThere madeDisk detourPlan.overrides
      ∧ '/' ∉ detourPlan.name.toList
      ∧ (∃ (server : ServerReport) (report : ModuleReport) (final : Disk),
          InTurn madeDisk (setUpServer detourPlan.root detourPlan.overrides) detourPlan.generate
            server report final)
      ∧ ¬ Swaps madeDisk (setUpServer detourPlan.root detourPlan.overrides) detourPlan.generate)
    ∧ danglingDisk.disk.IsTree
      ∧ ('/' ∉ usersPlan.name.toList ∧ '/' ∉ tagsPlan.name.toList)
      ∧ pascalCase usersPlan.name ≠ pascalCase tagsPlan.name
      ∧ Text.lowerCase usersPlan.name ≠ Text.lowerCase tagsPlan.name
      ∧ ((do return (← usersPlan.generate, ← tagsPlan.generate) :
          Attempt (ModuleReport × ModuleReport)).run.runLinked danglingDisk).1.isOk = true
      ∧ ((do return (← tagsPlan.generate, ← usersPlan.generate) :
          Attempt (ModuleReport × ModuleReport)).run.runLinked danglingDisk).1.isOk = false := by
  have hturn : ∃ (server : ServerReport) (report : ModuleReport) (final : Disk),
      InTurn madeDisk (setUpServer detourPlan.root detourPlan.overrides) detourPlan.generate
        server report final :=
    inTurn_of_isOk (by decide +kernel)
  have hfails : (detourPlan.generate.run.run madeDisk).1.isOk = false := by decide +kernel
  refine ⟨⟨by decide +kernel, overridesThere_of_find (by decide +kernel), by decide, hturn, ?_⟩,
    by decide +kernel, by decide, by decide +kernel, by decide +kernel, by decide +kernel,
    by decide +kernel⟩
  intro hswaps
  obtain ⟨server, report, final, hturn⟩ := hturn
  obtain ⟨-, ⟨mid, hrun, -⟩, -⟩ := hswaps server report final hturn
  rw [hrun] at hfails
  cases hfails

end Stencil.Project
