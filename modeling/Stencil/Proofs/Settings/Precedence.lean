import Stencil.Proofs.Files.Directories
import Stencil.Proofs.Settings.Variables
import Stencil.Settings.Load

/-! # Which layer a setting comes from

    The settings of a run come from four layers: the defaults, the file of the
    user, the file of the project, the variables.  Each of the three settings is
    the one of the highest layer that sets it, whatever that layer and the others
    say about other settings and about names that are none
    (`load_eq_some_iff_highest`).  Once the files could be read, loading fails only
    where one of these three values is of the wrong shape.

    This is so if the files give the sections as tables, and if each variable
    names a setting in a section.  Where several variables name the same setting,
    the last of them counts. -/

namespace Stencil.Settings

open Files (Disk Job)
open Value

/-! ## Files -/

theorem makesOnly_firstFile (paths : List String) : (firstFile paths).MakesOnly [] := by
  induction paths with
  | nil => exact trivial
  | cons path rest ih =>
      intro answer
      show Job.MakesOnly [] (if (answer == some .file) = true then _ else _)
      by_cases hfile : (answer == some .file) = true
      · rw [if_pos hfile]
        exact trivial
      · rw [if_neg hfile]
        exact ih

theorem makesOnly_findFile (path : String) : (findFile path).MakesOnly [] := by
  unfold findFile
  split
  · exact makesOnly_firstFile _
  · exact fun answer => makesOnly_firstFile _

theorem makesOnly_fileLayer (path : String) : (fileLayer path).MakesOnly [] := by
  refine (makesOnly_findFile path).bind fun found => ?_
  cases found with
  | none => exact trivial
  | some found =>
      have hread : (Job.readText found).MakesOnly [] := fun answer => trivial
      refine hread.bind fun answer => ?_
      cases answer <;> exact trivial

theorem makesOnly_standardLayer (path : String) : (standardLayer path).MakesOnly [] := by
  intro answer
  cases answer with
  | none => exact trivial
  | some kind => exact makesOnly_fileLayer path

/-- The layer of a file is the table that its text writes. -/
theorem run_fileLayer (path : String) (disk : Disk) :
    ((fileLayer path).run disk).1
      = match ((findFile path).run disk).1 with
        | none => some (.table [])
        | some found =>
            match ((Job.readText found).run disk).1 with
            | .error _ => none
            | .ok content => (Toml.read content).map .table := by
  rw [fileLayer, Job.run_bind, (makesOnly_findFile path).run_eq]
  cases ((findFile path).run disk).1 with
  | none => rfl
  | some found =>
      simp only [Job.run_bind]
      cases ((Job.readText found).run disk).1 <;> rfl

theorem run_standardLayer (path : String) (disk : Disk) :
    ((standardLayer path).run disk).1
      = if ((Job.isThere path).run disk).1 then ((fileLayer path).run disk).1
        else some (.table []) := by
  have hsame : ((Job.isThere path).run disk).2 = disk := rfl
  rw [standardLayer, Job.run_bind, hsame]
  cases ((Job.isThere path).run disk).1 <;> rfl

/-- What is read from a file is a table, in which nothing is named twice. -/
theorem table_of_standardLayer {path : String} {disk : Disk} {layer : Value}
    (h : ((standardLayer path).run disk).1 = some layer) :
    ∃ entries, layer = .table entries ∧ ∀ depth, layer.NamesOnce depth := by
  have hempty : ∀ layer, some (table []) = some layer →
      ∃ entries, layer = .table entries ∧ ∀ depth, layer.NamesOnce depth := by
    rintro layer ⟨⟩
    exact ⟨[], rfl, namesOnce_nil⟩
  rw [run_standardLayer] at h
  by_cases hthere : ((Job.isThere path).run disk).1 = true
  · rw [if_pos hthere, run_fileLayer] at h
    cases hfound : ((findFile path).run disk).1 with
    | none =>
        rw [hfound] at h
        exact hempty layer h
    | some found =>
        simp only [hfound] at h
        cases hread : ((Job.readText found).run disk).1 with
        | error reason =>
            rw [hread] at h
            cases h
        | ok text =>
            rw [hread] at h
            obtain ⟨entries, hentries, rfl⟩ := Option.map_eq_some_iff.mp h
            exact ⟨entries, rfl, Toml.namesOnce_of_read hentries⟩
  · rw [if_neg hthere] at h
    exact hempty layer h

/-- The layer of a file that is there is what its text says. -/
theorem standardLayer_of_text {path found text : String} {disk : Disk}
    (hthere : ((Job.isThere path).run disk).1 = true)
    (hfound : ((findFile path).run disk).1 = some found)
    (hread : ((Job.readText found).run disk).1 = .ok text) :
    ((standardLayer path).run disk).1 = (Toml.read text).map .table := by
  rw [run_standardLayer, if_pos hthere, run_fileLayer, hfound]
  simp only [hread]

/-- Loading comes to what the two files and the variables come to. -/
theorem run_load (around : Surroundings) (disk : Disk) :
    ((load around).run disk).1
      = combine [((standardLayer (userFile around.home around.configHome)).run disk).1,
          ((standardLayer projectFile).run disk).1,
          some (Variable.layer around.environment)] := by
  rw [load, Job.run_bind, (makesOnly_standardLayer _).run_eq, Job.run_bind]
  rfl

/-- If the settings can be loaded, there are the layers of the user and the
    project. -/
theorem layers_of_load {around : Surroundings} {disk : Disk} {settings : Settings}
    (h : ((load around).run disk).1 = some settings) :
    ∃ user project : List (String × Value),
      ((standardLayer (userFile around.home around.configHome)).run disk).1
          = some (.table user)
        ∧ ((standardLayer projectFile).run disk).1 = some (.table project) := by
  rw [run_load] at h
  cases huser : ((standardLayer (userFile around.home around.configHome)).run disk).1 with
  | none => rw [huser] at h; cases h
  | some user =>
      cases hproject : ((standardLayer projectFile).run disk).1 with
      | none => rw [huser, hproject] at h; cases h
      | some project =>
          obtain ⟨user, rfl, -⟩ := table_of_standardLayer huser
          obtain ⟨project, rfl, -⟩ := table_of_standardLayer hproject
          exact ⟨user, project, rfl, rfl⟩

/-! ## Layers over each other -/

/-- The sections in which there are settings. -/
def sectionNames : List String := ["schema", "templates", "output"]

/-- Whether a table has the sections as tables, if it has them. -/
def GivesSections (root : List (String × Value)) : Prop :=
  ∀ part ∈ sectionNames, GivesTable root part

instance (root : List (String × Value)) : Decidable (GivesSections root) :=
  inferInstanceAs (Decidable (∀ part ∈ sectionNames, GivesTable root part))

/-- Whether a table can be laid over others so that each of its settings counts. -/
structure IsLayer (root : List (String × Value)) : Prop where
  givesSections : GivesSections root
  namesOnce : (table root).NamesOnce 2

theorem IsLayer.givesSections_overlay {lower upper : List (String × Value)}
    (hupper : IsLayer upper) (hlower : GivesSections lower) :
    GivesSections (overlayEntries lower upper) := fun part hpart =>
  givesTable_overlayEntries hupper.namesOnce.1 (hlower part hpart)
    (hupper.givesSections part hpart)

theorem IsLayer.setting_overlay {lower upper : List (String × Value)} (hupper : IsLayer upper)
    (hlower : GivesSections lower) {part : String} (hpart : part ∈ sectionNames)
    (name : String) :
    (setting (overlayEntries lower upper) part name).map top
      = ((setting upper part name).map top).or ((setting lower part name).map top) :=
  setting_overlayEntries hupper.namesOnce (hlower part hpart)
    (hupper.givesSections part hpart) name

/-- The layer of the defaults. -/
def defaults : List (String × Value) :=
  [("schema", .table [("paths", .list (default.schemaPaths.map .text))]),
    ("templates", .table []), ("output", .table [("root", .text default.outputRoot)])]

theorem toValue_default : default.toValue = .table defaults := rfl

theorem givesSections_defaults : GivesSections defaults := by decide

/-! ## Reading the three settings -/

/-- A layer with the sections as tables is valid if its three settings are. -/
theorem ofValue?_eq_some_iff {root : List (String × Value)} (h : GivesSections root)
    {settings : Settings} :
    ofValue? (.table root) = some settings
      ↔ readOr default.schemaPaths texts? (setting root "schema" "paths")
            = some settings.schemaPaths
          ∧ readOr none (fun value => (text? value).map some) (setting root "templates" "dir")
            = some settings.templatesDirectory
          ∧ readOr default.outputRoot text? (setting root "output" "root")
            = some settings.outputRoot := by
  rw [ofValue?, setting?_of_givesTable (h "schema" (by decide)),
    setting?_of_givesTable (h "templates" (by decide)),
    setting?_of_givesTable (h "output" (by decide))]
  simp only [Option.bind_eq_bind, Option.bind_some]
  constructor
  · intro hvalue
    obtain ⟨paths, hpaths, hvalue⟩ := Option.bind_eq_some_iff.mp hvalue
    obtain ⟨dir, hdir, hvalue⟩ := Option.bind_eq_some_iff.mp hvalue
    obtain ⟨outputRoot, houtput, hvalue⟩ := Option.bind_eq_some_iff.mp hvalue
    cases hvalue
    exact ⟨hpaths, hdir, houtput⟩
  · rintro ⟨hpaths, hdir, houtput⟩
    rw [hpaths, hdir, houtput]
    rfl

/-- What is read of a setting does not depend on what is inside a table. -/
theorem readOr_eq_of_top {α : Type} {fallback : α} {read : Value → Option α}
    (hread : ∀ value, read value.top = read value) {found found' : Option Value}
    (h : found.map top = found'.map top) :
    readOr fallback read found = readOr fallback read found' := by
  have htop : ∀ found : Option Value,
      readOr fallback read (found.map top) = readOr fallback read found := by
    intro found
    cases found with
    | none => rfl
    | some value => exact hread value
  rw [← htop found, h, htop]

/-- What is read in the lowest layer is what is read if there is nothing. -/
theorem readOr_or {α : Type} {fallback : α} {read : Value → Option α} {lowest : Option Value}
    (h : readOr fallback read lowest = some fallback) (found : Option Value) :
    readOr fallback read (found.or lowest) = readOr fallback read found := by
  cases found with
  | none => exact h
  | some found => rfl

/-! ## Precedence -/

/-- What the highest layer that has a setting gives it. -/
def highest (user project : List (String × Value)) (environment : List (String × String))
    (part name : String) : Option Value :=
  (variablesSetting environment part name).or
    ((setting project part name).or (setting user part name))

/-- Each of the three settings is read where the highest layer that has it gives it, and is
    the default if there is none; and the settings are loaded if and only if all three
    can be read there. -/
theorem load_eq_some_iff_highest {around : Surroundings} {disk : Disk}
    {user project : List (String × Value)}
    (huser : ((standardLayer (userFile around.home around.configHome)).run disk).1
      = some (.table user))
    (hproject : ((standardLayer projectFile).run disk).1 = some (.table project))
    (huserSections : GivesSections user) (hprojectSections : GivesSections project)
    (hvariables : NameSettings around.environment) (settings : Settings) :
    ((load around).run disk).1 = some settings
      ↔ readOr default.schemaPaths texts?
            (highest user project around.environment "schema" "paths")
            = some settings.schemaPaths
          ∧ readOr none (fun value => (text? value).map some)
              (highest user project around.environment "templates" "dir")
            = some settings.templatesDirectory
          ∧ readOr default.outputRoot text?
              (highest user project around.environment "output" "root")
            = some settings.outputRoot := by
  obtain ⟨_, heq, huserOnce⟩ := table_of_standardLayer huser
  cases heq
  have huserLayer : IsLayer user := ⟨huserSections, huserOnce 2⟩
  obtain ⟨_, heq, hprojectOnce⟩ := table_of_standardLayer hproject
  cases heq
  have hprojectLayer : IsLayer project := ⟨hprojectSections, hprojectOnce 2⟩
  obtain ⟨root, hroot, honce, htables, hsettings⟩ := table_of_variables hvariables
  have hrootLayer : IsLayer root := ⟨fun part _ => htables part, honce⟩
  have hlow := huserLayer.givesSections_overlay givesSections_defaults
  have hfiles := hprojectLayer.givesSections_overlay hlow
  have hload : ((load around).run disk).1
      = ofValue? (.table (overlayEntries
          (overlayEntries (overlayEntries defaults user) project) root)) := by
    rw [run_load, huser, hproject, hroot]
    show ofValue? (overlay (overlay (overlay default.toValue (.table user)) (.table project))
      (.table root)) = _
    rw [toValue_default, overlay_table, overlay_table, overlay_table]
  have hhighest : ∀ part ∈ sectionNames, ∀ name,
      (setting (overlayEntries (overlayEntries (overlayEntries defaults user) project) root)
          part name).map top
        = ((highest user project around.environment part name).or
            (setting defaults part name)).map top := by
    intro part hpart name
    rw [hrootLayer.setting_overlay hfiles hpart, hprojectLayer.setting_overlay hlow hpart,
      huserLayer.setting_overlay givesSections_defaults hpart, hsettings]
    simp only [highest, Option.map_or, Option.or_assoc]
  have hdir : ∀ value : Value, (text? value.top).map some = (text? value).map some :=
    fun value => congrArg (Option.map some) (text?_top value)
  rw [hload, ofValue?_eq_some_iff (hrootLayer.givesSections_overlay hfiles),
    readOr_eq_of_top texts?_top (hhighest "schema" (by decide) "paths"),
    readOr_eq_of_top hdir (hhighest "templates" (by decide) "dir"),
    readOr_eq_of_top text?_top (hhighest "output" (by decide) "root"),
    readOr_or rfl, readOr_or rfl, readOr_or rfl]

/-- A working directory with settings of the user and of the project. -/
def layeredDisk : Disk :=
  ⟨Ordered.ofList
    [(["root"], .directory), (["root", ".config"], .directory),
      (["root", ".config", "modgen"], .directory),
      (["root", ".config", "modgen", "config.toml"],
        .file "[schema]\npaths = [\"db.prisma\"]\n[output]\nroot = \"lib\"\n".toUTF8),
      (["work"], .directory),
      (["work", "modgen.toml"],
        .file "[schema]\ntabs = true\n[output]\nroot = \"app\"\n".toUTF8)], ["work"]⟩

/-- A variable that names the directory of the overriding templates. -/
def layeredAround : Surroundings := ⟨none, none, [("MODGEN_TEMPLATES__DIR", "tpl")]⟩

theorem read_tpl : Variable.read "tpl" = .text "tpl" := by
  have hbare : Variable.bareValue 3 ['t', 'p', 'l'] = some (.text "tpl", []) := by
    rw [Variable.bareValue.eq_def]
    rfl
  have hvalue : Variable.bareValue.value 3 ['t', 'p', 'l'] = some (.text "tpl", []) := by
    rw [Variable.bareValue.value.eq_def]
    exact congrArg (Option.map _) hbare
  have hlist : "tpl".toList = ['t', 'p', 'l'] := by decide
  rw [Variable.read, hlist]
  simp only [List.length_cons, List.length_nil, hvalue]

theorem variablesSetting_layered (part name : String) :
    variablesSetting layeredAround.environment part name
      = if "templates" = part ∧ "dir" = name then some (.text "tpl") else none := by
  have hpath : Variable.path? "MODGEN_TEMPLATES__DIR" = some ["templates", "dir"] := by
    decide +kernel
  rw [show layeredAround.environment = [] ++ [("MODGEN_TEMPLATES__DIR", "tpl")] from rfl,
    variablesSetting_concat, variableSetting, hpath]
  exact (Option.or_none).trans (by rw [read_tpl]; rfl)

/-- The paths of the user, the root of the project and the templates of the variable come
    together, although the project has a section for the schema, too. -/
theorem load_eq_some_iff_highest_layered :
    ∃ user project : List (String × Value),
      ((standardLayer (userFile layeredAround.home layeredAround.configHome)).run
          layeredDisk).1 = some (.table user)
        ∧ ((standardLayer projectFile).run layeredDisk).1 = some (.table project)
        ∧ GivesSections user ∧ GivesSections project
        ∧ NameSettings layeredAround.environment
        ∧ ((load layeredAround).run layeredDisk).1
          = some ⟨["db.prisma"], some "tpl", "app"⟩ := by
  have huserFile : ((findFile (userFile layeredAround.home layeredAround.configHome)).run
      layeredDisk).1 = some "/root/.config/modgen/config.toml" := by
    decide +kernel
  have huser : ((standardLayer (userFile layeredAround.home layeredAround.configHome)).run
      layeredDisk).1
        = some (.table [("schema", .table [("paths", .list [.text "db.prisma"])]),
            ("output", .table [("root", .text "lib")])]) := by
    rw [standardLayer_of_text (by decide +kernel) huserFile rfl]
    decide +kernel
  have hprojectFile : ((findFile projectFile).run layeredDisk).1 = some "/work/modgen.toml" := by
    decide +kernel
  have hproject : ((standardLayer projectFile).run layeredDisk).1
      = some (.table [("schema", .table [("tabs", .flag true)]),
          ("output", .table [("root", .text "app")])]) := by
    rw [standardLayer_of_text (by decide +kernel) hprojectFile rfl]
    decide +kernel
  have hvariables : NameSettings layeredAround.environment := by decide +kernel
  refine ⟨_, _, huser, hproject, by decide, by decide, hvariables, ?_⟩
  rw [load_eq_some_iff_highest huser hproject (by decide) (by decide) hvariables]
  simp only [highest, variablesSetting_layered]
  exact ⟨rfl, rfl, rfl⟩

end Stencil.Settings
