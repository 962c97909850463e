import Stencil.Proofs.Files.Tree
import Stencil.Proofs.Files.WorkingDirectory
import Stencil.Proofs.Settings.Precedence

/-! # A settings file that was named

    Whoever names a settings file at which there is none gets the defaults and the
    variables, if the path is absolute.  A relative path is looked for in the directories
    above the working directory, too, the nearest first: only where there is no file in any
    of them do the settings come from no file at all.  The nearest file gives the layer below
    the variables (`run_loadFrom_without_file`). -/

namespace Stencil.Settings

open Files (Disk Entry Job Location)
open Stencil.Path (IsName)

variable {disk : Disk} {path : String} {paths before : List String} {up here : Location}

/-! ## The first file -/

/-- Whether there is a file at a path. -/
def HasFile (disk : Disk) (path : String) : Prop :=
  ∃ content : ByteArray, disk.find path = .ok (.file content)

theorem run_isFile_eq_true_iff :
    ((Job.isFile path).run disk).1 = true ↔ HasFile disk path := by
  have hrun : ((Job.isFile path).run disk).1
      = ((disk.find path).toOption.map Entry.kind == some .file) := rfl
  rw [hrun]
  constructor
  · intro hkind
    cases hfind : disk.find path with
    | error reason =>
        rw [hfind] at hkind
        cases hkind
    | ok entry =>
        rw [hfind] at hkind
        cases entry with
        | directory => cases hkind
        | file content => exact ⟨content, hfind⟩
  · rintro ⟨content, hfind⟩
    rw [hfind]
    rfl

instance (disk : Disk) (path : String) : Decidable (HasFile disk path) :=
  decidable_of_iff _ run_isFile_eq_true_iff

theorem run_firstFile_cons (path : String) (rest : List String) (disk : Disk) :
    (firstFile (path :: rest)).run disk
      = if ((Job.isFile path).run disk).1 then (some path, disk) else (firstFile rest).run disk := by
  have hsame : ((Job.isFile path).run disk).2 = disk := rfl
  rw [firstFile, Job.run_bind, hsame]
  cases ((Job.isFile path).run disk).1 <;> rfl

/-- Paths without a file are passed over. -/
theorem run_firstFile_append (hnone : ∀ path ∈ before, ¬ HasFile disk path)
    (paths : List String) :
    (firstFile (before ++ paths)).run disk = (firstFile paths).run disk := by
  induction before with
  | nil => rfl
  | cons path before ih =>
      have hpath : ¬ ((Job.isFile path).run disk).1 = true :=
        fun h => hnone path (List.mem_cons_self ..) (run_isFile_eq_true_iff.mp h)
      rw [List.cons_append, run_firstFile_cons, if_neg hpath,
        ih fun other hother => hnone other (List.mem_cons_of_mem _ hother)]

theorem run_firstFile_of_none (hnone : ∀ path ∈ paths, ¬ HasFile disk path) :
    (firstFile paths).run disk = (none, disk) := by
  rw [← List.append_nil paths, run_firstFile_append hnone]
  rfl

/-- The first file is found, whatever comes after it. -/
theorem run_firstFile_of_first (hnone : ∀ path ∈ before, ¬ HasFile disk path)
    (hfile : HasFile disk path) (after : List String) :
    (firstFile (before ++ path :: after)).run disk = (some path, disk) := by
  rw [run_firstFile_append hnone, run_firstFile_cons, if_pos (run_isFile_eq_true_iff.mpr hfile)]

/-! ## The places of a file -/

theorem findFile_of_absolute (h : Path.isAbsolute path = true) :
    findFile path = firstFile [path] := by
  rw [findFile, if_pos h]

/-- A relative path is looked for in the working directory and in all that it lies in. -/
theorem run_findFile_of_relative (hhere : ∀ name ∈ disk.here, IsName name)
    (h : Path.isAbsolute path = false) :
    (findFile path).run disk
      = (firstFile (disk.here.inits.reverse.map
          fun up => Path.join (Job.absolute up) path)).run disk := by
  rw [findFile, h, if_neg Bool.false_ne_true]
  show (firstFile _).run disk = _
  rw [Files.ancestors_absolute hhere, List.map_map]
  rfl

/-- Before a location, among all that another one lies in, come those between the two. -/
theorem inits_reverse_of_prefix (h : up <+: here) :
    ∃ between after : List Location, here.inits.reverse = between ++ up :: after
      ∧ ∀ down ∈ between, up <+: down ∧ down <+: here ∧ down ≠ up := by
  induction here using List.reverseRecOn with
  | nil =>
      obtain rfl := List.prefix_nil.mp h
      exact ⟨[], [], rfl, fun down hdown => by cases hdown⟩
  | append_singleton here name ih =>
      have hinits : (here ++ [name]).inits.reverse = (here ++ [name]) :: here.inits.reverse := by
        rw [List.inits_append, List.reverse_append]
        rfl
      rcases List.prefix_concat_iff.mp h with rfl | habove
      · exact ⟨[], here.inits.reverse, hinits, fun down hdown => by cases hdown⟩
      · obtain ⟨between, after, hsplit, hbetween⟩ := ih habove
        refine ⟨(here ++ [name]) :: between, after, ?_, fun down hdown => ?_⟩
        · rw [hinits, hsplit, List.cons_append]
        · rcases List.mem_cons.mp hdown with rfl | hmem
          · refine ⟨h, List.prefix_refl _, fun hsame => ?_⟩
            have hlength := habove.length_le
            rw [← hsame, List.length_append, List.length_singleton] at hlength
            omega
          · obtain ⟨hup, hdown, hne⟩ := hbetween down hmem
            exact ⟨hup, hdown.trans (List.prefix_append _ _), hne⟩

/-- A file at the path, seen from the working directory, is one at the path. -/
theorem hasFile_of_join (hhere : ∀ name ∈ disk.here, IsName name)
    (hrelative : Path.isAbsolute path = false)
    (h : HasFile disk (Path.join (Job.absolute disk.here) path)) : HasFile disk path := by
  obtain ⟨content, hfind⟩ := h
  exact ⟨content, Disk.find_of_find_join hhere hrelative hfind⟩

/-- Where there is no file, and none above if the path is relative, none is found. -/
theorem run_findFile_of_nowhere (hhere : ∀ name ∈ disk.here, IsName name)
    (hnone : ¬ HasFile disk path)
    (habove : Path.isAbsolute path = false → ∀ up, up <+: disk.here → up ≠ disk.here →
      ¬ HasFile disk (Path.join (Job.absolute up) path)) :
    (findFile path).run disk = (none, disk) := by
  cases hpath : Path.isAbsolute path with
  | true =>
      rw [findFile_of_absolute hpath]
      exact run_firstFile_of_none fun other hother => List.mem_singleton.mp hother ▸ hnone
  | false =>
      rw [run_findFile_of_relative hhere hpath]
      refine run_firstFile_of_none fun other hother => ?_
      obtain ⟨up, hup, rfl⟩ := List.mem_map.mp hother
      rw [List.mem_reverse, List.mem_inits] at hup
      by_cases hsame : up = disk.here
      · rw [hsame]
        exact fun hfile => hnone (hasFile_of_join hhere hpath hfile)
      · exact habove hpath up hup hsame

/-- The nearest file is found. -/
theorem run_findFile_of_nearest (hhere : ∀ name ∈ disk.here, IsName name)
    (hrelative : Path.isAbsolute path = false) (hup : up <+: disk.here)
    (hbetween : ∀ down, up <+: down → down <+: disk.here → down ≠ up →
      ¬ HasFile disk (Path.join (Job.absolute down) path))
    (hfile : HasFile disk (Path.join (Job.absolute up) path)) :
    (findFile path).run disk = (some (Path.join (Job.absolute up) path), disk) := by
  obtain ⟨between, after, hsplit, hnearer⟩ := inits_reverse_of_prefix hup
  rw [run_findFile_of_relative hhere hrelative, hsplit, List.map_append, List.map_cons]
  refine run_firstFile_of_first (fun other hother => ?_) hfile _
  obtain ⟨down, hdown, rfl⟩ := List.mem_map.mp hother
  obtain ⟨hbelow, habove, hne⟩ := hnearer down hdown
  exact hbetween down hbelow habove hne

/-! ## Settings of a named file -/

theorem run_loadFrom (path : String) (around : Surroundings) (disk : Disk) :
    (loadFrom path around).run disk
      = (combine [((fileLayer path).run disk).1, some (Variable.layer around.environment)],
          disk) := by
  rw [loadFrom, Job.run_bind, (makesOnly_fileLayer path).run_eq]
  rfl

/-- An empty layer changes nothing. -/
theorem combine_empty (upper : List (Option Value)) :
    combine (some (.table []) :: upper) = combine upper := by
  have hempty : Value.overlay default.toValue (.table []) = default.toValue := by
    rw [toValue_default, Value.overlay_table, Value.overlayEntries]
  rw [combine, combine, List.mapM_cons]
  cases upper.mapM id with
  | none => rfl
  | some layers => exact congrArg (fun lowest => ofValue? (layers.foldl Value.overlay lowest)) hempty

/-- The layer that the content of a file gives. -/
def contentLayer (content : ByteArray) : Option Value :=
  match Job.decode content with
  | .error _ => none
  | .ok text => (Toml.read text).map .table

/-- The layer of the nearest file is its content. -/
theorem fileLayer_of_found {found : String} {content : ByteArray}
    (hfound : ((findFile path).run disk).1 = some found)
    (hcontent : disk.find found = .ok (.file content)) :
    ((fileLayer path).run disk).1 = contentLayer content := by
  rw [run_fileLayer, hfound]
  simp only [Disk.run_readText_of_find hcontent]
  rfl

/-- **A named file at which there is none.**  If the path is absolute, or if there is no file
    in the directories above either, the settings come from the defaults and the variables
    alone; else the nearest of these files lies below the variables. -/
theorem run_loadFrom_without_file (hhere : ∀ name ∈ disk.here, IsName name)
    (hnone : ¬ HasFile disk path) (around : Surroundings) :
    ((Path.isAbsolute path = false → ∀ up, up <+: disk.here → up ≠ disk.here →
          ¬ HasFile disk (Path.join (Job.absolute up) path)) →
        (loadFrom path around).run disk
          = (combine [some (Variable.layer around.environment)], disk))
      ∧ ∀ (up : Location) (content : ByteArray), Path.isAbsolute path = false →
          up <+: disk.here →
          (∀ down, up <+: down → down <+: disk.here → down ≠ up →
            ¬ HasFile disk (Path.join (Job.absolute down) path)) →
          disk.find (Path.join (Job.absolute up) path) = .ok (.file content) →
          (loadFrom path around).run disk
            = (combine [contentLayer content, some (Variable.layer around.environment)],
                disk) := by
  constructor
  · intro habove
    rw [run_loadFrom, run_fileLayer, run_findFile_of_nowhere hhere hnone habove]
    exact congrArg (·, disk) (combine_empty _)
  · intro up content hrelative hup hbetween hcontent
    have hfound := run_findFile_of_nearest hhere hrelative hup hbetween ⟨content, hcontent⟩
    rw [run_loadFrom, fileLayer_of_found (congrArg Prod.fst hfound) hcontent]

/-- A directory with a settings file, and a working directory in it. -/
def outerDisk : Disk :=
  ⟨Ordered.ofList
    [(["work"], .directory),
      (["work", "other.toml"], .file "[output]\nroot = \"up\"\n".toUTF8),
      (["work", "sub"], .directory)], ["work", "sub"]⟩

theorem contentLayer_outer : contentLayer "[output]\nroot = \"up\"\n".toUTF8
    = some (.table [("output", .table [("root", .text "up")])]) := by
  decide +kernel

/-- What is nowhere leaves the defaults; what is not there, but above, is found. -/
theorem run_loadFrom_without_file_outer :
    (∀ name ∈ outerDisk.here, IsName name)
      ∧ ¬ HasFile outerDisk "none.toml" ∧ ¬ HasFile outerDisk "other.toml"
      ∧ (loadFrom "none.toml" ⟨none, none, []⟩).run outerDisk = (some default, outerDisk)
      ∧ (loadFrom "other.toml" ⟨none, none, []⟩).run outerDisk
        = (some ⟨default.schemaPaths, none, "up"⟩, outerDisk) := by
  have hhere : ∀ name ∈ outerDisk.here, IsName name := by decide
  have hnone : ¬ HasFile outerDisk "none.toml" := by decide +kernel
  have hother : ¬ HasFile outerDisk "other.toml" := by decide +kernel
  have habove : ∀ up ∈ outerDisk.here.inits,
      ¬ HasFile outerDisk (Path.join (Job.absolute up) "none.toml") := by decide +kernel
  have hbetween : ∀ down ∈ outerDisk.here.inits, ["work"] <+: down → down ≠ ["work"] →
      ¬ HasFile outerDisk (Path.join (Job.absolute down) "other.toml") := by decide +kernel
  refine ⟨hhere, hnone, hother, ?_, ?_⟩
  · exact (run_loadFrom_without_file hhere hnone ⟨none, none, []⟩).1 fun _ up hup _ =>
      habove up ((List.mem_inits _ _).mpr hup)
  · have hfound := (run_loadFrom_without_file hhere hother ⟨none, none, []⟩).2 ["work"] _
      (by decide) (by decide)
      (fun down hbelow hdown hne => hbetween down ((List.mem_inits _ _).mpr hdown) hbelow hne) rfl
    rw [hfound, contentLayer_outer]
    rfl

/-- The settings of a file above the working directory count, although there is no file at
    the path and the defaults have another root. -/
theorem loadFrom_finds_above :
    outerDisk.IsTree ∧ ¬ HasFile outerDisk "other.toml"
      ∧ ((loadFrom "other.toml" ⟨none, none, []⟩).run outerDisk).1
        = some ⟨default.schemaPaths, none, "up"⟩
      ∧ combine [some (Variable.layer [])] = some default ∧ default.outputRoot = "." := by
  have hfound : ((findFile "other.toml").run outerDisk).1 = some "/work/other.toml" := by
    decide +kernel
  refine ⟨by decide, by decide +kernel, ?_, rfl, rfl⟩
  rw [run_loadFrom, fileLayer_of_found hfound rfl, contentLayer_outer]
  rfl

end Stencil.Settings
