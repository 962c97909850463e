import Stencil.Proofs.Project.Overriding

/-! # Laying out files

    Generating a module and setting up a server both lay out files below a root, one
    after the other (`layOut`).  They differ in that the first asks whether anything is
    there before it looks at a template, while the second loads every template.

    As templates stay what they are while files are made, the texts can be told from the
    disk at the start.  So both runs come down to laying out given texts
    (`run_generateOf_eq_layOut`, `run_copyServerFiles_eq_layOut`), and their reports to
    what became of each file. -/

namespace Stencil.Project

open Files (Disk Entry Job)

/-! ## Items -/

/-- A file to lay out: its path below a root, the text that goes there, unless that cannot
    be had, and whether it is asked first if anything is there. -/
structure Item where
  path : String
  text : Except Failure String
  asks : Bool

/-- Lays out one file, which gives the text that was written, or nothing for a file that
    is skipped. -/
def layOne (root : String) (item : Item) (disk : Disk) :
    Except Failure (Option String) × Disk :=
  if item.asks && (disk.find (Path.join root item.path)).toOption.isSome then (.ok none, disk)
  else
    match item.text with
    | .error failure => (.error failure, disk)
    | .ok text =>
        match (writeNewFile root item.path text).run.run disk with
        | (.ok .written, later) => (.ok (some text), later)
        | (.ok .alreadyThere, later) => (.ok none, later)
        | (.error failure, later) => (.error failure, later)

/-- Lays out files one after the other, up to the first failure. -/
def layOut (root : String) : List Item → Disk → Except Failure (List (Option String)) × Disk
  | [], disk => (.ok [], disk)
  | item :: rest, disk =>
      match layOne root item disk with
      | (.error failure, later) => (.error failure, later)
      | (.ok result, later) => Prod.map (Except.map (result :: ·)) id (layOut root rest later)

variable {root : String} {disk later final : Disk}

/-! ## One file -/

section One

variable {item : Item}

/-- A file that is asked for and found is skipped. -/
theorem layOne_of_found (hasks : item.asks = true)
    (hfound : (disk.find (Path.join root item.path)).toOption.isSome = true) :
    layOne root item disk = (.ok none, disk) := by
  rw [layOne, hasks, hfound]
  rfl

/-- Any other is written, or skipped after all. -/
theorem layOne_of_missing (h : item.asks = true →
      ¬ (disk.find (Path.join root item.path)).toOption.isSome = true) :
    layOne root item disk = match item.text with
      | .error failure => (.error failure, disk)
      | .ok text =>
          match (writeNewFile root item.path text).run.run disk with
          | (.ok .written, later) => (.ok (some text), later)
          | (.ok .alreadyThere, later) => (.ok none, later)
          | (.error failure, later) => (.error failure, later) := by
  rw [layOne, if_neg]
  rw [Bool.and_eq_true]
  exact fun hboth => h hboth.1 hboth.2

/-- What laying out a file comes to, when it succeeds: it is found, or it can be loaded
    and goes through writing a new file. -/
theorem of_layOne {result : Option String} (h : layOne root item disk = (.ok result, later)) :
    (item.asks = true ∧ (∃ entry : Entry, disk.find (Path.join root item.path) = .ok entry)
        ∧ result = none ∧ later = disk)
      ∨ ∃ (text : String) (outcome : WriteOutcome), item.text = .ok text
          ∧ (writeNewFile root item.path text).run.run disk = (.ok outcome, later)
          ∧ result = match outcome with
            | .written => some text
            | .alreadyThere => none := by
  by_cases hfound : item.asks = true
      ∧ (disk.find (Path.join root item.path)).toOption.isSome = true
  · rw [layOne_of_found hfound.1 hfound.2] at h
    cases h
    refine Or.inl ⟨hfound.1, ?_, rfl, rfl⟩
    cases hfind : disk.find (Path.join root item.path) with
    | ok entry => exact ⟨entry, rfl⟩
    | error reason =>
        have hsome := hfound.2
        rw [hfind] at hsome
        cases hsome
  · rw [layOne_of_missing fun hasks hsome => hfound ⟨hasks, hsome⟩] at h
    cases htext : item.text with
    | error failure => rw [htext] at h; cases h
    | ok text =>
        rw [htext] at h
        simp only at h
        cases hwrite : (writeNewFile root item.path text).run.run disk with
        | mk outcome mid =>
            rw [hwrite] at h
            cases outcome with
            | error failure => cases h
            | ok outcome =>
                refine Or.inr ⟨text, outcome, rfl, ?_⟩
                cases outcome <;> (cases h; exact ⟨hwrite, rfl⟩)

/-- A file whose text can be had is laid out if writing it does not fail. -/
theorem layOne_of_write {text : String} (htext : item.text = .ok text) {outcome : WriteOutcome}
    (hwrite : (writeNewFile root item.path text).run.run disk = (.ok outcome, later))
    (h : ¬ (item.asks = true ∧ (disk.find (Path.join root item.path)).toOption.isSome = true)) :
    ∃ result : Option String, layOne root item disk = (.ok result, later) := by
  rw [layOne_of_missing fun hasks hsome => h ⟨hasks, hsome⟩, htext]
  simp only [hwrite]
  cases outcome <;> exact ⟨_, rfl⟩

/-- Laying out a file changes nothing but what writing a new file changes. -/
theorem layOne_cases (root : String) (item : Item) (disk : Disk) :
    (layOne root item disk).2 = disk ∨ ∃ text : String,
      (layOne root item disk).2 = ((writeNewFile root item.path text).run.run disk).2 := by
  by_cases hfound : item.asks = true
      ∧ (disk.find (Path.join root item.path)).toOption.isSome = true
  · rw [layOne_of_found hfound.1 hfound.2]
    exact Or.inl rfl
  rw [layOne_of_missing fun hasks hsome => hfound ⟨hasks, hsome⟩]
  cases item.text with
  | error failure => exact Or.inl rfl
  | ok text =>
      refine Or.inr ⟨text, ?_⟩
      simp only
      cases (writeNewFile root item.path text).run.run disk with
      | mk outcome mid =>
          cases outcome with
          | error failure => rfl
          | ok outcome => cases outcome <;> rfl

theorem grows_layOne (root : String) (item : Item) (disk : Disk) :
    disk.Grows (layOne root item disk).2 := by
  rcases layOne_cases root item disk with hsame | ⟨text, hwrite⟩
  · rw [hsame]
    exact Disk.Grows.refl disk
  · rw [hwrite]
    exact Job.grows_run disk _

theorem isTree_layOne (h : disk.IsTree) (root : String) (item : Item) :
    (layOne root item disk).2.IsTree := by
  rcases layOne_cases root item disk with hsame | ⟨text, hwrite⟩
  · rw [hsame]
    exact h
  · rw [hwrite]
    exact Job.isTree_run h _

/-- Laying out a file spares templates, unless it has the name of one. -/
theorem spares_layOne (disk : Disk)
    (hname : ¬ EndsAsTemplate (Path.names (Path.join root item.path))) :
    SparesTemplates disk (layOne root item disk).2 := by
  rcases layOne_cases root item disk with hsame | ⟨text, hwrite⟩
  · rw [hsame]
    exact SparesTemplates.refl disk
  · rw [hwrite]
    exact spares_writeNewFile disk hname text

end One

/-! ## Several files -/

theorem layOut_cons_eq_ok_iff {item : Item} {rest : List Item} {results : List (Option String)} :
    layOut root (item :: rest) disk = (.ok results, final)
      ↔ ∃ (result : Option String) (mid : Disk) (others : List (Option String)),
          layOne root item disk = (.ok result, mid) ∧ layOut root rest mid = (.ok others, final)
            ∧ results = result :: others := by
  rw [layOut]
  constructor
  · intro h
    cases hone : layOne root item disk with
    | mk outcome mid =>
        rw [hone] at h
        cases outcome with
        | error failure => cases h
        | ok result =>
            obtain ⟨others, hrest, rfl⟩ := Attempt.of_run_map h
            exact ⟨result, mid, others, rfl, hrest, rfl⟩
  · rintro ⟨result, mid, others, hone, hrest, rfl⟩
    rw [hone]
    simp only [hrest]
    rfl

/-- Files in sequence are laid out in turn. -/
theorem layOut_append_eq_ok_iff {items items' : List Item} {results : List (Option String)} :
    layOut root (items ++ items') disk = (.ok results, final)
      ↔ ∃ (first second : List (Option String)) (mid : Disk),
          layOut root items disk = (.ok first, mid) ∧ layOut root items' mid = (.ok second, final)
            ∧ results = first ++ second := by
  induction items generalizing disk results with
  | nil =>
      constructor
      · intro h
        exact ⟨[], results, disk, rfl, h, rfl⟩
      · rintro ⟨first, second, mid, hfirst, hsecond, rfl⟩
        cases hfirst
        exact hsecond
  | cons item items ih =>
      rw [List.cons_append, layOut_cons_eq_ok_iff]
      constructor
      · rintro ⟨result, mid, others, hone, hrest, rfl⟩
        obtain ⟨first, second, mid', hfirst, hsecond, rfl⟩ := ih.mp hrest
        exact ⟨result :: first, second, mid',
          layOut_cons_eq_ok_iff.mpr ⟨result, mid, first, hone, hfirst, rfl⟩, hsecond, rfl⟩
      · rintro ⟨first, second, mid', hfirst, hsecond, rfl⟩
        obtain ⟨result, mid, others, hone, hrest, rfl⟩ := layOut_cons_eq_ok_iff.mp hfirst
        exact ⟨result, mid, others ++ second, hone,
          ih.mpr ⟨others, second, mid', hrest, hsecond, rfl⟩, rfl⟩

/-- Every file has its result. -/
theorem length_of_layOut {items : List Item} {results : List (Option String)}
    (h : layOut root items disk = (.ok results, final)) : results.length = items.length := by
  induction items generalizing disk results with
  | nil =>
      cases h
      rfl
  | cons item items ih =>
      obtain ⟨result, mid, others, -, hrest, rfl⟩ := layOut_cons_eq_ok_iff.mp h
      rw [List.length_cons, List.length_cons, ih hrest]

/-! ## Modules -/

/-- A file of a module, with the text that its template gives on a disk. -/
def ModulePlan.item (disk : Disk) (plan : ModulePlan) (template : ModuleTemplate) : Item where
  path := template.outputPath plan.name
  text := (plan.filled disk template).map ModuleFile.content
  asks := true

/-- Reports what became of one more file of a module. -/
def ModulePlan.addResult (plan : ModulePlan) (template : ModuleTemplate) (report : ModuleReport) :
    Option String → ModuleReport
  | some text =>
      report.addGenerated ⟨template.outputPath plan.name, text, template.description⟩
  | none => report.addSkipped (template.outputPath plan.name)

/-- The report on what became of some files of a module. -/
def ModulePlan.reportOn (plan : ModulePlan) :
    List ModuleTemplate → List (Option String) → ModuleReport
  | template :: rest, result :: results =>
      plan.addResult template (plan.reportOn rest results) result
  | [], _ => ModuleReport.empty
  | _ :: _, [] => ModuleReport.empty

variable {plan : ModulePlan}

theorem eq_of_filled {template : ModuleTemplate} {file : ModuleFile}
    (h : plan.filled disk template = .ok file) :
    file = ⟨template.outputPath plan.name, file.content, template.description⟩ := by
  rw [ModulePlan.filled] at h
  cases hloaded : loaded disk plan.overrides template.name template.builtin with
  | error failure => rw [hloaded] at h; cases h
  | ok text =>
      rw [hloaded] at h
      cases h
      rfl

/-- Generating files lays out the first one, then generates the others. -/
theorem run_generateOf_eq_layOne (htree : disk.IsTree)
    (hthere : OverridesThere disk plan.overrides) (hspares : SparesTemplates disk later)
    {template : ModuleTemplate} (htemplate : template ∈ ModuleTemplate.all)
    (rest : List ModuleTemplate) :
    (plan.generateOf (template :: rest)).run.run later
      = match layOne plan.root (plan.item disk template) later with
        | (.error failure, mid) => (.error failure, mid)
        | (.ok result, mid) =>
            Prod.map (Except.map (plan.addResult template · result)) id
              ((plan.generateOf rest).run.run mid) := by
  rw [run_generateOf, run_fill_eq, filled_of_spares htree hspares hthere htemplate]
  by_cases hfound :
      (later.find (outputFile plan.root plan.name template)).toOption.isSome = true
  · have hone : layOne plan.root (plan.item disk template) later = (.ok none, later) :=
      layOne_of_found rfl hfound
    rw [if_pos hfound, hone]
    rfl
  have hone : layOne plan.root (plan.item disk template) later = _ :=
    layOne_of_missing fun _ => hfound
  rw [if_neg hfound, hone, ModulePlan.item]
  cases hfilled : plan.filled disk template with
  | error failure => rfl
  | ok file =>
      rw [eq_of_filled hfilled]
      simp only [Except.map]
      cases (writeNewFile plan.root (template.outputPath plan.name) file.content).run.run later with
      | mk outcome mid =>
          cases outcome with
          | error failure => rfl
          | ok outcome => cases outcome <;> rfl

/-- Generating files of a module is laying them out. -/
theorem run_generateOf_eq_layOut (htree : disk.IsTree)
    (hthere : OverridesThere disk plan.overrides) (hspares : SparesTemplates disk later)
    {templates : List ModuleTemplate}
    (hall : ∀ template ∈ templates, template ∈ ModuleTemplate.all) :
    (plan.generateOf templates).run.run later
      = Prod.map (Except.map (plan.reportOn templates)) id
          (layOut plan.root (templates.map (plan.item disk)) later) := by
  induction templates generalizing later with
  | nil => rfl
  | cons template rest ih =>
      have hone : SparesTemplates later (layOne plan.root (plan.item disk template) later).2 :=
        spares_layOne later (not_endsAsTemplate_output template plan.root plan.name)
      rw [run_generateOf_eq_layOne htree hthere hspares (hall template (List.mem_cons_self ..)),
        List.map_cons, layOut]
      cases hresult : layOne plan.root (plan.item disk template) later with
      | mk outcome mid =>
          cases outcome with
          | error failure => rfl
          | ok result =>
              rw [hresult] at hone
              simp only [ih (hspares.trans hone)
                fun other hother => hall other (List.mem_cons_of_mem _ hother)]
              cases layOut plan.root (rest.map (plan.item disk)) mid with
              | mk outcome final => cases outcome <;> rfl

/-! ## Servers -/

/-- A file of a server, with the text that its template gives on a disk. -/
def serverItem (disk : Disk) (overrides : Option String) (file : ServerFile) : Item where
  path := file.output
  text := loaded disk overrides file.name file.builtin
  asks := false

/-- Reports what became of one more file of a server. -/
def ServerReport.addResult (file : ServerFile) (report : ServerReport) :
    Option String → ServerReport
  | some _ => report.addWritten file.output
  | none => report.addKept file.output

/-- The report on what became of some files of a server. -/
def serverReportOn : List ServerFile → List (Option String) → ServerReport
  | file :: rest, result :: results => (serverReportOn rest results).addResult file result
  | [], _ => ServerReport.empty
  | _ :: _, [] => ServerReport.empty

/-- Copying files lays out the first one, then copies the others. -/
theorem run_copyServerFiles_eq_layOne (htree : disk.IsTree) {overrides : Option String}
    (hthere : OverridesThere disk overrides) (hspares : SparesTemplates disk later)
    {file : ServerFile} (hfile : file ∈ ServerFile.all) (rest : List ServerFile) :
    (copyServerFiles root overrides (file :: rest)).run.run later
      = match layOne root (serverItem disk overrides file) later with
        | (.error failure, mid) => (.error failure, mid)
        | (.ok result, mid) =>
            Prod.map (Except.map (·.addResult file result)) id
              ((copyServerFiles root overrides rest).run.run mid) := by
  rw [run_copyServerFiles, run_loadTemplate_eq,
    loaded_of_spares htree hspares hthere (isTemplatePath_server file hfile),
    layOne_of_missing fun hasks => by cases hasks]
  rw [serverItem]
  cases loaded disk overrides file.name file.builtin with
  | error failure => rfl
  | ok text =>
      simp only
      cases (writeNewFile root file.output text).run.run later with
      | mk outcome mid =>
          cases outcome with
          | error failure => rfl
          | ok outcome => cases outcome <;> rfl

/-- Copying files of a server is laying them out. -/
theorem run_copyServerFiles_eq_layOut (htree : disk.IsTree) {overrides : Option String}
    (hthere : OverridesThere disk overrides) (hspares : SparesTemplates disk later)
    {files : List ServerFile} (hall : ∀ file ∈ files, file ∈ ServerFile.all) :
    (copyServerFiles root overrides files).run.run later
      = Prod.map (Except.map (serverReportOn files)) id
          (layOut root (files.map (serverItem disk overrides)) later) := by
  induction files generalizing later with
  | nil => rfl
  | cons file rest ih =>
      have hfile := hall file (List.mem_cons_self ..)
      have hone : SparesTemplates later (layOne root (serverItem disk overrides file) later).2 :=
        spares_layOne later (not_endsAsTemplate_server hfile root)
      rw [run_copyServerFiles_eq_layOne htree hthere hspares hfile, List.map_cons, layOut]
      cases hresult : layOne root (serverItem disk overrides file) later with
      | mk outcome mid =>
          cases outcome with
          | error failure => rfl
          | ok result =>
              rw [hresult] at hone
              simp only [ih (hspares.trans hone)
                fun other hother => hall other (List.mem_cons_of_mem _ hother)]
              cases layOut root (rest.map (serverItem disk overrides)) mid with
              | mk outcome final => cases outcome <;> rfl

end Stencil.Project
