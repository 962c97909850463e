import Stencil.Proofs.Project.NewFiles
import Stencil.Proofs.Template.Outputs

/-! # Places of the files of a module

    What could keep a file of a module from being made is something at its place.
    The other files of the module stand elsewhere, and so do the directories made
    for them (`ways_avoid`), unless the root itself goes through the place of a file
    and out again.  So a file whose place is free is written, and leaves the places
    of the others free (`written_of_free`). -/

namespace Stencil.Project

open Files (Disk Location follow follow_append follow_of_no_dots)

/-! ## Places of files -/

/-- The path of the file that a template makes for a module. -/
def outputFile (root module : String) (template : ModuleTemplate) : String :=
  Path.join root (template.outputPath module)

/-- The place where the names on that path lead. -/
def outputPlace (disk : Disk) (root module : String) (template : ModuleTemplate) : Location :=
  follow (disk.startOf (outputFile root module template))
    (Path.names (outputFile root module template))

/-- Whether a root goes to where it leads without passing a place. -/
def GoesPast (disk : Disk) (root : String) (place : Location) : Prop :=
  ∀ before after : List String, Path.names root = before ++ after →
    follow (disk.startOf root) before ≠ place

/-- Whether a root passes the place of no file. -/
def RootAvoids (disk : Disk) (root module : String) : Prop :=
  ∀ template ∈ ModuleTemplate.all, GoesPast disk root (outputPlace disk root module template)

variable {disk later : Disk} {root module : String} {template template' : ModuleTemplate}

theorem startOf_outputFile (h : template ∈ ModuleTemplate.all) (hmodule : '/' ∉ module.toList) :
    disk.startOf (outputFile root module template) = disk.startOf root := by
  rw [Disk.startOf, Disk.startOf, outputFile, ModuleTemplate.isAbsolute_join_outputPath h hmodule]

theorem outputPlace_eq (h : template ∈ ModuleTemplate.all) (hmodule : '/' ∉ module.toList) :
    outputPlace disk root module template
      = follow (disk.startOf root) (Path.names root) ++ template.outputNames module := by
  rw [outputPlace, startOf_outputFile h hmodule, outputFile, ModuleTemplate.names_join_outputPath h hmodule,
    follow_append, follow_of_no_dots (ModuleTemplate.outputNames_no_dots h hmodule)]

theorem getLast?_outputFile (h : template ∈ ModuleTemplate.all) (hmodule : '/' ∉ module.toList)
    (root : String) : ∃ name : String,
      (Path.names (outputFile root module template)).getLast? = some name
        ∧ name ≠ "." ∧ name ≠ ".." := by
  obtain ⟨name, hlast, hdots⟩ := ModuleTemplate.getLast?_outputNames h hmodule
  refine ⟨name, ?_, hdots⟩
  rw [outputFile, ModuleTemplate.names_join_outputPath h hmodule, List.getLast?_append, hlast]
  rfl

/-- A root goes past a place if none of its first names lead there. -/
theorem goesPast_of_take {place : Location}
    (h : ∀ n ≤ (Path.names root).length,
      follow (disk.startOf root) ((Path.names root).take n) ≠ place) : GoesPast disk root place := by
  intro before after hnames
  have hbefore : before = (Path.names root).take before.length := by
    rw [hnames, List.take_left]
  rw [hbefore]
  refine h before.length ?_
  rw [hnames, List.length_append]
  exact Nat.le_add_right _ _

/-- A root that avoids all places goes past those of the files that come first. -/
theorem RootAvoids.pairwise (h : RootAvoids disk root module) :
    ModuleTemplate.all.Pairwise fun template _ =>
      GoesPast disk root (outputPlace disk root module template) :=
  (ModuleTemplate.pairwise_outputNames module).imp_of_mem fun hmem _ _ => h _ hmem

/-- There is room for a file if its directories are clear, and its name and its path are
    not too long. -/
theorem room_outputFile (h : template ∈ ModuleTemplate.all) (hmodule : '/' ∉ module.toList)
    (hclear : disk.Clear (disk.startOf root)
      (Path.names root ++ (template.outputNames module).dropLast))
    (hshort : ∀ name ∈ (template.outputNames module).getLast?, Disk.isLongName name = false)
    (hnul : '\x00' ∉ root.toList ∧ '\x00' ∉ (template.outputPath module).toList)
    (hlong : root.utf8ByteSize + (template.outputPath module).utf8ByteSize < 4095) :
    Room disk (outputFile root module template) := by
  obtain ⟨name, hlast, hdot, hup⟩ := ModuleTemplate.getLast?_outputNames h hmodule
  obtain ⟨front, hnames⟩ := List.getLast?_eq_some_iff.mp hlast
  have hfull : Path.names (outputFile root module template)
      = (Path.names root ++ front) ++ [name] := by
    rw [outputFile, ModuleTemplate.names_join_outputPath h hmodule, hnames, List.append_assoc]
  rw [hnames, List.dropLast_concat] at hclear
  constructor
  · refine Disk.begin_eq_ok_iff.mpr ⟨?_, ?_, ?_, rfl⟩
    · intro hempty
      rw [hempty] at hfull
      exact List.append_ne_nil_of_right_ne_nil _ (List.cons_ne_nil _ _) hfull.symm
    · intro hmem
      rcases Path.of_mem_join hmem with hslash | hroot | hpath
      · exact absurd hslash (by decide)
      · exact hnul.1 hroot
      · exact hnul.2 hpath
    · have hsize := Path.utf8ByteSize_join_le root (template.outputPath module)
      rw [outputFile]
      omega
  · rw [hfull, List.dropLast_concat, startOf_outputFile h hmodule]
    exact hclear
  · refine ⟨name, ?_, hdot, hup, hshort name hlast⟩
    rw [hfull, List.getLast?_concat]
  · exact ModuleTemplate.endsInSlash_join_outputPath h hmodule root

theorem outputPlace_of_grows (h : Disk.Grows disk later) :
    outputPlace later root module template = outputPlace disk root module template := by
  rw [outputPlace, outputPlace, h.startOf]

theorem GoesPast.of_grows {place : Location} (h : GoesPast disk root place)
    (hgrows : Disk.Grows disk later) : GoesPast later root place := by
  intro before after hnames
  rw [hgrows.startOf]
  exact h before after hnames

theorem RootAvoids.of_grows (h : RootAvoids disk root module) (hgrows : Disk.Grows disk later) :
    RootAvoids later root module := by
  intro template htemplate
  rw [outputPlace_of_grows hgrows]
  exact (h template htemplate).of_grows hgrows

/-- Names on the way to a file do not lead to the place of one. -/
theorem front_avoids (h : template ∈ ModuleTemplate.all) (h' : template' ∈ ModuleTemplate.all)
    (hmodule : '/' ∉ module.toList)
    (hroot : GoesPast disk root (outputPlace disk root module template'))
    {before after : List String}
    (hnames : before ++ after = Path.names (outputFile root module template))
    (hne : after ≠ []) :
    follow (disk.startOf root) before ≠ outputPlace disk root module template' := by
  rw [outputFile, ModuleTemplate.names_join_outputPath h hmodule] at hnames
  rcases List.append_eq_append_iff.mp hnames with ⟨rest, hbefore, -⟩ | ⟨below, hbelow, hout⟩
  · -- they are names of the root
    exact hroot before rest hbefore
  · -- they go below the root, on the way down to the file
    intro hplace
    have hdots : ∀ name ∈ below, name ≠ "." ∧ name ≠ ".." := by
      intro name hname
      refine ModuleTemplate.outputNames_no_dots h hmodule name ?_
      rw [hout]
      exact List.mem_append_left _ hname
    rw [outputPlace_eq h' hmodule, hbelow, follow_append, follow_of_no_dots hdots] at hplace
    rw [List.append_cancel_left hplace] at hout
    exact ModuleTemplate.outputNames_not_prefix template template' module hne hout

/-- So the directories on the path of a file are apart from the places of files. -/
theorem dropLast_avoids (h : template ∈ ModuleTemplate.all) (h' : template' ∈ ModuleTemplate.all)
    (hmodule : '/' ∉ module.toList)
    (hroot : GoesPast disk root (outputPlace disk root module template')) {before : List String}
    (hbefore : before <+: (Path.names (outputFile root module template)).dropLast) :
    follow (disk.startOf (outputFile root module template)) before
      ≠ outputPlace disk root module template' := by
  obtain ⟨more, hmore⟩ := hbefore
  obtain ⟨name, hlast, -⟩ := getLast?_outputFile h hmodule root
  obtain ⟨front, hnames⟩ := List.getLast?_eq_some_iff.mp hlast
  rw [hnames, List.dropLast_concat] at hmore
  have hwhole : before ++ (more ++ [name]) = Path.names (outputFile root module template) := by
    rw [hnames, ← hmore, List.append_assoc]
  rw [startOf_outputFile h hmodule]
  exact front_avoids h h' hmodule hroot hwhole
    (List.append_ne_nil_of_right_ne_nil _ (List.cons_ne_nil _ _))

/-- No directory on the way to a file stands where a file goes. -/
theorem ways_avoid (h : template ∈ ModuleTemplate.all) (h' : template' ∈ ModuleTemplate.all)
    (hmodule : '/' ∉ module.toList) (hroot : RootAvoids disk root module) {path : String}
    (hpath : path ∈ waysTo (outputFile root module template)) :
    follow (disk.startOf path) (Path.names path) ≠ outputPlace disk root module template' := by
  obtain ⟨hstart, more, hnames, hstrict⟩ := names_of_mem_waysTo hpath
  have hbegin : disk.startOf path = disk.startOf root := by
    rw [Disk.startOf, hstart]
    exact startOf_outputFile h hmodule
  rw [hbegin]
  exact front_avoids h h' hmodule (hroot template' h') hnames
    (hstrict (ModuleTemplate.endsInSlash_join_outputPath h hmodule root))

/-- A file whose place is free is written, and the places of the other files stay
    free. -/
theorem written_of_free (h : template ∈ ModuleTemplate.all) (hmodule : '/' ∉ module.toList)
    (hroot : RootAvoids disk root module)
    (hfree : disk.entry? (outputPlace disk root module template) = none) {text : String}
    {outcome : WriteOutcome}
    (hwrite : (writeNewFile root (template.outputPath module) text).run.run disk
      = (.ok outcome, later)) :
    outcome = .written ∧ Disk.Grows disk later
      ∧ later.Holds ⟨outputFile root module template, text⟩ (outputPlace disk root module template)
      ∧ ∀ template' ∈ ModuleTemplate.all,
          template.outputNames module ≠ template'.outputNames module →
          disk.entry? (outputPlace disk root module template') = none →
          later.entry? (outputPlace disk root module template') = none := by
  obtain ⟨mid, hgrows, hways, hcreate⟩ := of_writeNewFile hwrite
  -- the directories made on the way leave the places of files free
  have hkeep : ∀ template' ∈ ModuleTemplate.all,
      disk.entry? (outputPlace disk root module template') = none →
      mid.entry? (outputPlace disk root module template') = none := by
    intro template' h' hfree'
    cases hentry : mid.entry? (outputPlace disk root module template') with
    | none => rfl
    | some entry =>
        rcases hways _ entry hentry with hthere | ⟨path, hpath, hplace⟩
        · rw [hfree'] at hthere
          cases hthere
        · exact absurd hplace.symm (ways_avoid h h' hmodule hroot hpath)
  cases outcome with
  | alreadyThere =>
      -- so there is nothing that could have been there already
      obtain ⟨name, hlast, hdots⟩ := getLast?_outputFile h hmodule root
      refine absurd ?_ (Disk.entry?_of_occupied hlast hdots hcreate)
      rw [hgrows.startOf]
      exact hkeep template h hfree
  | written =>
      obtain ⟨place, -, hholds, hother⟩ := Disk.holds_of_create hcreate
      have hplace : place = outputPlace disk root module template := by
        rw [hholds.1.eq_follow, (Disk.grows_create hcreate).startOf, hgrows.startOf]
        rfl
      subst hplace
      refine ⟨rfl, hgrows.trans (Disk.grows_create hcreate), hholds, ?_⟩
      intro template' h' hne hfree'
      rw [hother]
      · exact hkeep template' h' hfree'
      · intro hsame
        rw [outputPlace_eq h hmodule, outputPlace_eq h' hmodule] at hsame
        exact hne (List.append_cancel_left hsame).symm

end Stencil.Project
