import Stencil.Project.Server
import Stencil.Proofs.Files.Tree
import Stencil.Proofs.Project.Accounts

/-! # Overriding templates while files are made

    What stands at the path of an overriding file decides what loading a template comes
    to.  The names of templates end in `l`; no file of a module or of a server has such
    a name.  So if the directory of overriding templates is there, making files changes
    nothing for the templates that are loaded later (`loaded_of_spares`), even where the
    files go into that very directory.

    All this is said of disks without links.  A link may have the name of a template and
    lead to a file of another name. -/

namespace Stencil.Project

open Files (Disk Entry Job Location)

variable {disk later last : Disk}

/-! ## Names of templates -/

/-- Whether names end with one that a template could have. -/
def EndsAsTemplate (names : List String) : Prop :=
  ∃ last ∈ names.getLast?, last.toList.getLast? = some 'l'

/-- Whether a path is that of a template: it leads down, to a name of a template. -/
def IsTemplatePath (name : String) : Prop :=
  Path.isAbsolute name = false ∧ (∀ part ∈ Path.names name, part ≠ "." ∧ part ≠ "..")
    ∧ EndsAsTemplate (Path.names name)

instance (names : List String) : Decidable (EndsAsTemplate names) :=
  inferInstanceAs (Decidable (∃ _ ∈ _, _))

instance (name : String) : Decidable (IsTemplatePath name) :=
  inferInstanceAs (Decidable (_ ∧ _ ∧ _))

theorem isTemplatePath_module : ∀ template ∈ ModuleTemplate.all,
    IsTemplatePath template.name := by
  decide +kernel

theorem isTemplatePath_server : ∀ file ∈ ServerFile.all, IsTemplatePath file.name := by
  decide +kernel

theorem not_endsAsTemplate {names : List String} {last : String}
    (hlast : names.getLast? = some last) (hend : last.toList.getLast? ≠ some 'l') :
    ¬ EndsAsTemplate names := by
  rintro ⟨other, hother, hl⟩
  rw [hlast] at hother
  exact hend (Option.some.inj hother ▸ hl)

/-- No file of a module has the name of a template. -/
theorem not_endsAsTemplate_output (template : ModuleTemplate) (root module : String) :
    ¬ EndsAsTemplate (Path.names (Path.join root (template.outputPath module))) := by
  obtain ⟨name, hlast, -, hend⟩ := template.getLast?_names_join_outputPath root module
  refine not_endsAsTemplate hlast ?_
  rw [hend]
  decide

/-- No file of a server has the name of a template. -/
theorem not_endsAsTemplate_server {file : ServerFile} (h : file ∈ ServerFile.all)
    (root : String) : ¬ EndsAsTemplate (Path.names (Path.join root file.output)) := by
  have houtputs : ∀ file ∈ ServerFile.all, ∃ last ∈ (Path.names file.output).getLast?,
      last.toList.getLast? ≠ some 'l' := by
    decide +kernel
  obtain ⟨last, hlast, hend⟩ := houtputs file h
  exact not_endsAsTemplate (Path.getLast?_names_join root hlast) hend

/-! ## Templates are spared -/

/-- Whether a disk has grown, and none of its new files has the name of a template. -/
structure SparesTemplates (disk later : Disk) : Prop where
  grows : Disk.Grows disk later
  files : ∀ (place : Location) (content : ByteArray),
    later.entry? place = some (.file content) →
    disk.entry? place = some (.file content) ∨ ¬ EndsAsTemplate place

theorem SparesTemplates.refl (disk : Disk) : SparesTemplates disk disk :=
  ⟨Disk.Grows.refl disk, fun _ _ h => Or.inl h⟩

theorem SparesTemplates.trans (h : SparesTemplates disk later) (h' : SparesTemplates later last) :
    SparesTemplates disk last where
  grows := h.grows.trans h'.grows
  files := by
    intro place content hfile
    rcases h'.files place content hfile with hlater | hname
    · exact h.files place content hlater
    · exact Or.inr hname

/-- Writing a new file spares templates, unless it has the name of one. -/
theorem spares_writeNewFile (disk : Disk) {root path : String}
    (hname : ¬ EndsAsTemplate (Path.names (Path.join root path))) (text : String) :
    SparesTemplates disk ((writeNewFile root path text).run.run disk).2 where
  grows := Job.grows_run disk _
  files := by
    intro place content hfile
    rcases Job.written_of_appears hfile with hthere | ⟨write, hwrite, hholds⟩
    · exact Or.inl hthere
    · obtain ⟨-, rfl⟩ := of_mem_writes hwrite
      refine Or.inr ?_
      rw [EndsAsTemplate, hholds.1.getLast?]
      exact hname

/-! ## The directory of overriding templates -/

/-- Whether the directory of overriding templates, if there is to be one, is there. -/
def OverridesThere (disk : Disk) (overrides : Option String) : Prop :=
  ∀ directory : String, overrides = some directory → disk.find directory = .ok .directory

theorem overridesThere_of_find {directory : String}
    (h : (disk.find directory).toOption = some .directory) :
    OverridesThere disk (some directory) := by
  intro directory' hdirectory
  cases hdirectory
  cases hfind : disk.find directory with
  | error reason => rw [hfind] at h; cases h
  | ok entry => rw [hfind] at h; exact congrArg Except.ok (Option.some.inj h)

theorem OverridesThere.of_grows {overrides : Option String} (h : OverridesThere disk overrides)
    (hgrows : Disk.Grows disk later) : OverridesThere later overrides :=
  fun directory hdirectory => hgrows.find (h directory hdirectory)

/-- An overriding file that is found later was found before. -/
theorem find_of_spares (htree : disk.IsTree) (h : SparesTemplates disk later)
    {directory name : String} (hthere : disk.find directory = .ok .directory)
    (hname : IsTemplatePath name) {content : ByteArray}
    (hfind : later.find (Path.join directory name) = .ok (.file content)) :
    disk.find (Path.join directory name) = .ok (.file content) := by
  obtain ⟨hrelative, hdots, last, hlast, hend⟩ := hname
  obtain ⟨front, hnames⟩ := List.getLast?_eq_some_iff.mp hlast
  have hfull : Path.names (Path.join directory name)
      = Path.names directory ++ (front ++ [last]) := by
    rw [Path.names_join directory hrelative, hnames]
  have hstart : disk.startOf (Path.join directory name) = disk.startOf directory := by
    rw [Disk.startOf, Disk.startOf, Path.isAbsolute_join directory hrelative]
  rw [hnames] at hdots
  have hlastdots := hdots last (List.mem_append_right _ (List.mem_singleton.mpr rfl))
  refine htree.find_of_later h.grows.here hfull ?_ hdots hfind ?_
  · rw [hstart]
    exact Disk.reaches_of_find hthere
  · -- a file with such a name is not new
    have hlast' := Path.getLast?_names_join directory hlast
    have hentry := Disk.entry?_of_find hlast' hlastdots hfind
    rw [h.grows.startOf] at hentry
    rcases h.files _ content hentry with hbefore | hnew
    · exact hbefore
    · refine absurd ⟨last, ?_, hend⟩ hnew
      rw [hfull, ← List.append_assoc, Files.follow_append,
        Files.follow_of_no_dots (fun part hpart => List.mem_singleton.mp hpart ▸ hlastdots),
        List.getLast?_concat]
      rfl

/-- **Templates stay what they are.**  If the directory of overriding templates is there,
    and no new file has the name of a template, loading a template comes to the same. -/
theorem loaded_of_spares (htree : disk.IsTree) (h : SparesTemplates disk later)
    {overrides : Option String} (hthere : OverridesThere disk overrides) {name : String}
    (hname : IsTemplatePath name) (builtin : String) :
    loaded later overrides name builtin = loaded disk overrides name builtin := by
  cases overrides with
  | none => rfl
  | some directory =>
      have hback : ∀ content : ByteArray,
          later.find (Path.join directory name) = .ok (.file content) →
          disk.find (Path.join directory name) = .ok (.file content) :=
        fun _ => find_of_spares htree h (hthere directory rfl) hname
      rw [loaded_some, loaded_some]
      cases hbefore : disk.find (Path.join directory name) with
      | ok entry => rw [h.grows.find hbefore]
      | error reason =>
          -- what is found only later is a directory
          cases hafter : later.find (Path.join directory name) with
          | error reason' => rfl
          | ok entry =>
              cases entry with
              | directory => rfl
              | file content =>
                  rw [hback content hafter] at hbefore
                  cases hbefore

theorem filled_of_spares {plan : ModulePlan} (htree : disk.IsTree)
    (h : SparesTemplates disk later) (hthere : OverridesThere disk plan.overrides)
    {template : ModuleTemplate} (htemplate : template ∈ ModuleTemplate.all) :
    plan.filled later template = plan.filled disk template := by
  rw [ModulePlan.filled, ModulePlan.filled,
    loaded_of_spares htree h hthere (isTemplatePath_module template htemplate)]

end Stencil.Project
