import Stencil.Proofs.Project.Generation

/-! # The first candidate decides

    A schema is searched for at several paths.  The first one at which there is
    anything settles the search: its entry is a schema, or it is the reason why there
    is none, and no later path is looked at (`run_locateSchema_first`).  A search that
    comes to no model leaves a plan as it was (`withSchema_of_declaresNo`), so a module
    is then generated as if nobody had searched (`run_generateFrom_of_declaresNo`). -/

namespace Stencil.Project

open Files (Disk Entry Job)
open Schema (Index)

variable {disk : Disk} {path : String} {entry : Entry} {before candidates : List String}

/-! ## One path -/

/-- Whether there is nothing at a path. -/
def Absent (disk : Disk) (path : String) : Prop :=
  ∀ entry : Entry, disk.find path ≠ .ok entry

/-- What an entry at a path is as a schema. -/
def schemaAt (path : String) : Entry → Except SchemaFailure Index
  | .directory => .error (.unreadable path .isDirectory)
  | .file content =>
      match String.fromUTF8? content with
      | none => .error (.unreadable path .notText)
      | some text => (Index.read text).mapError .unclosed

/-- What a search comes to if it ends at an entry. -/
def outcomeAt (path : String) (entry : Entry) : SchemaSearch :=
  match schemaAt path entry with
  | .ok index => .loaded path index
  | .error failure => .unusable path failure

theorem outcomeAt_ne_notFound (path : String) (entry : Entry) :
    outcomeAt path entry ≠ .notFound := by
  rw [outcomeAt]
  cases schemaAt path entry with
  | ok index => exact SchemaSearch.noConfusion
  | error failure => exact SchemaSearch.noConfusion

theorem fromUTF8?_toUTF8 (text : String) : String.fromUTF8? text.toUTF8 = some text := by
  simp [String.fromUTF8?, text.isValidUTF8, String.fromUTF8]

/-- A file with a text is a schema if the text reads as one. -/
theorem outcomeAt_text (path text : String) :
    outcomeAt path (.file text.toUTF8)
      = match Index.read text with
        | .ok index => .loaded path index
        | .error header => .unusable path (.unclosed header) := by
  have hschema : schemaAt path (.file text.toUTF8) = (Index.read text).mapError .unclosed := by
    rw [schemaAt, fromUTF8?_toUTF8]
  rw [outcomeAt, hschema]
  cases Index.read text <;> rfl

theorem run_loadSchema_absent (h : Absent disk path) :
    (loadSchema path).run disk = (.ok none, disk) := by
  have hnone : (disk.find path).toOption.isSome = false := by
    cases hfind : disk.find path with
    | error reason => rfl
    | ok entry => exact absurd hfind (h entry)
  rw [loadSchema, Job.run_bind, run_isThere, hnone]
  rfl

/-- Reading a schema asks for the kind of the entry first, and then for its content. -/
theorem run_loadSchema_there (h : disk.find path = .ok entry) :
    (loadSchema path).run disk = ((schemaAt path entry).map some, disk) := by
  have hsome : (disk.find path).toOption.isSome = true := by rw [h]; rfl
  rw [loadSchema, Job.run_bind, run_isThere, hsome]
  show (Job.readText path >>= _).run disk = _
  cases entry with
  | directory =>
      have hread : (Job.readText path).run disk = (.error .isDirectory, disk) := by
        show ((disk.read path).bind Job.decode, disk) = _
        rw [Disk.read, h]
        rfl
      rw [Job.run_bind, hread]
      rfl
  | file content =>
      rw [Job.run_bind, Disk.run_readText_of_find h, Job.decode, schemaAt]
      cases String.fromUTF8? content <;> rfl

/-! ## Several paths -/

/-- Whether a path is the first of a list of candidates at which there is anything, and
    what is there; the list goes up to the path. -/
structure First (disk : Disk) (before : List String) (path : String) (entry : Entry) :
    Prop where
  absent : ∀ candidate ∈ before, Absent disk candidate
  there : disk.find path = .ok entry

/-- It stays the first on a disk that answers alike up to there. -/
theorem First.of_alike {other : Disk} (h : First disk before path entry)
    (halike : ∀ candidate ∈ before ++ [path], other.find candidate = disk.find candidate) :
    First other before path entry where
  absent := by
    intro candidate hmem entry hfind
    rw [halike candidate (List.mem_append_left _ hmem)] at hfind
    exact h.absent candidate hmem entry hfind
  there := by
    rw [halike path (List.mem_append_right _ (List.mem_singleton_self path))]
    exact h.there

/-- At some candidate there is something first, if not all of them are absent. -/
theorem exists_first (disk : Disk) (candidates : List String) :
    (∀ candidate ∈ candidates, Absent disk candidate)
      ∨ ∃ before path after entry,
          candidates = before ++ path :: after ∧ First disk before path entry := by
  induction candidates with
  | nil => exact .inl fun _ hmem => absurd hmem List.not_mem_nil
  | cons candidate candidates ih =>
      cases hfind : disk.find candidate with
      | ok entry =>
          exact .inr ⟨[], candidate, candidates, entry, rfl,
            ⟨fun _ hmem => absurd hmem List.not_mem_nil, hfind⟩⟩
      | error reason =>
          have habsent : Absent disk candidate := by
            intro entry hentry
            rw [hfind] at hentry
            cases hentry
          rcases ih with hall | ⟨before, path, after, entry, rfl, hfirst⟩
          · exact .inl (List.forall_mem_cons.mpr ⟨habsent, hall⟩)
          · exact .inr ⟨candidate :: before, path, after, entry, rfl,
              List.forall_mem_cons.mpr ⟨habsent, hfirst.absent⟩, hfirst.there⟩

/-- The search passes over candidates at which there is nothing. -/
theorem run_locateSchema_append (rest : List String)
    (h : ∀ candidate ∈ candidates, Absent disk candidate) :
    (locateSchema (candidates ++ rest)).run disk = (locateSchema rest).run disk := by
  induction candidates with
  | nil => rfl
  | cons candidate candidates ih =>
      obtain ⟨hhead, htail⟩ := List.forall_mem_cons.mp h
      rw [List.cons_append, locateSchema, Job.run_bind, run_loadSchema_absent hhead]
      exact ih htail

theorem run_locateSchema_absent (h : ∀ candidate ∈ candidates, Absent disk candidate) :
    (locateSchema candidates).run disk = (.notFound, disk) := by
  have happend := run_locateSchema_append [] h
  rw [List.append_nil] at happend
  exact happend

/-- The search ends at the first candidate at which there is anything. -/
theorem run_locateSchema_first (h : First disk before path entry) (after : List String) :
    (locateSchema (before ++ path :: after)).run disk = (outcomeAt path entry, disk) := by
  rw [run_locateSchema_append _ h.absent, locateSchema, Job.run_bind,
    run_loadSchema_there h.there, outcomeAt]
  cases schemaAt path entry <;> rfl

/-- Nothing is found exactly if there is nothing at any candidate. -/
theorem locateSchema_eq_notFound_iff :
    ((locateSchema candidates).run disk).1 = .notFound
      ↔ ∀ candidate ∈ candidates, Absent disk candidate := by
  constructor
  · intro h
    rcases exists_first disk candidates with hall | ⟨before, path, after, entry, rfl, hfirst⟩
    · exact hall
    · rw [run_locateSchema_first hfirst] at h
      exact absurd h (outcomeAt_ne_notFound path entry)
  · intro h
    rw [run_locateSchema_absent h]

/-- Searching changes nothing. -/
theorem run_locateSchema_snd (candidates : List String) (disk : Disk) :
    ((locateSchema candidates).run disk).2 = disk := by
  rcases exists_first disk candidates with hall | ⟨before, path, after, entry, rfl, hfirst⟩
  · rw [run_locateSchema_absent hall]
  · rw [run_locateSchema_first hfirst]

/-! ## With and without a model -/

theorem ModulePlan.of_new {module root : String} {overrides : Option String} {plan : ModulePlan}
    (h : ModulePlan.new module root overrides = .ok plan) :
    plan.name = module ∧ plan.root = root ∧ plan.overrides = overrides := by
  rw [ModulePlan.new] at h
  split at h
  next => cases h
  next => cases h; exact ⟨rfl, rfl, rfl⟩

theorem ModulePlan.fields_of_new {module root : String} {overrides : Option String}
    {plan : ModulePlan} (h : ModulePlan.new module root overrides = .ok plan) :
    plan.fields = none := by
  rw [ModulePlan.new] at h
  split at h
  next => cases h
  next => cases h; rfl

theorem withSchema_loaded {plan : ModulePlan} {path : String} {index : Index} {name : String}
    {model : Schema.Model} (h : index.find? plan.name = some (name, model)) :
    plan.withSchema (.loaded path index) = { plan with fields := some model } := by
  have hbind : (SchemaSearch.loaded path index).index?.bind (·.find? plan.name)
      = some (name, model) := h
  rw [ModulePlan.withSchema, hbind]

/-- Whether a search comes to no model that a name means. -/
inductive DeclaresNo (name : String) : SchemaSearch → Prop where
  | notFound : DeclaresNo name .notFound
  | unusable (path : String) (failure : SchemaFailure) : DeclaresNo name (.unusable path failure)
  | loaded (path : String) {index : Index} (h : index.find? name = none) :
      DeclaresNo name (.loaded path index)

/-- A search that comes to no model leaves a plan as it was. -/
theorem withSchema_of_declaresNo {plan : ModulePlan} {search : SchemaSearch}
    (h : DeclaresNo plan.name search) : plan.withSchema search = plan := by
  cases h with
  | notFound => rfl
  | unusable path failure => rfl
  | @loaded path index hindex =>
      have hbind : (SchemaSearch.loaded path index).index?.bind (·.find? plan.name) = none := hindex
      rw [ModulePlan.withSchema, hbind]

/-- A plan without fields stays without exactly if the search comes to no model. -/
theorem fields_withSchema_eq_none_iff {plan : ModulePlan} (hplan : plan.fields = none)
    (search : SchemaSearch) :
    (plan.withSchema search).fields = none ↔ DeclaresNo plan.name search := by
  constructor
  · intro hfields
    cases search with
    | notFound => exact .notFound
    | unusable path failure => exact .unusable path failure
    | loaded path index =>
        cases hindex : index.find? plan.name with
        | none => exact .loaded path hindex
        | some found =>
            rw [withSchema_loaded hindex] at hfields
            cases hfields
  · intro h
    rw [withSchema_of_declaresNo h]
    exact hplan

/-- Generates a module with the first schema that is found. -/
def generateFrom (candidates : List String) (plan : ModulePlan) :
    Job (Except Failure ModuleReport) := do
  let search ← locateSchema candidates
  (plan.withSchema search).generate.run

/-- A module is generated as if nobody had searched, if that comes to no model. -/
theorem run_generateFrom_of_declaresNo {plan : ModulePlan}
    (h : DeclaresNo plan.name ((locateSchema candidates).run disk).1) :
    (generateFrom candidates plan).run disk = plan.generate.run.run disk := by
  rw [generateFrom, Job.run_bind, withSchema_of_declaresNo h, run_locateSchema_snd]

/-- **The first candidate decides, and without a model nothing is different.**  A search
    finds nothing exactly if there is nothing at any candidate.  Else there is a first
    one at which there is something, and what is there is what the search comes to,
    whatever candidates come later and whatever is at them.  A new plan stays without
    fields exactly if nothing usable was found or its name means no model of what was
    found, and then it generates the same files with the same result as before. -/
theorem locateSchema_decides {module root : String} {overrides : Option String}
    {plan : ModulePlan} (hplan : ModulePlan.new module root overrides = .ok plan)
    (disk : Disk) (candidates : List String) :
    (((locateSchema candidates).run disk).1 = .notFound
        ↔ ∀ candidate ∈ candidates, Absent disk candidate)
      ∧ ((∀ candidate ∈ candidates, Absent disk candidate)
        ∨ ∃ before path after entry,
            candidates = before ++ path :: after ∧ First disk before path entry)
      ∧ (∀ before path entry, First disk before path entry →
          ∀ (other : Disk) (after : List String),
            (∀ candidate ∈ before ++ [path], other.find candidate = disk.find candidate) →
            (locateSchema (before ++ path :: after)).run other = (outcomeAt path entry, other))
      ∧ ∀ search,
          ((plan.withSchema search).fields = none ↔ DeclaresNo module search)
            ∧ (DeclaresNo module search →
              (plan.withSchema search).generate.run.run disk = plan.generate.run.run disk) := by
  obtain ⟨rfl, -, -⟩ := ModulePlan.of_new hplan
  refine ⟨locateSchema_eq_notFound_iff, exists_first disk candidates, ?_, fun search => ⟨?_, ?_⟩⟩
  · intro before path entry hfirst other after halike
    exact run_locateSchema_first (hfirst.of_alike halike) after
  · exact fields_withSchema_eq_none_iff (ModulePlan.fields_of_new hplan) search
  · intro hsearch
    rw [withSchema_of_declaresNo hsearch]

/-- A disk with a draft of a schema whose only block does not close, and a schema. -/
def draftDisk : Disk :=
  ⟨Ordered.ofList [(["draft.prisma"], .file "model Post \x7b".toUTF8),
    (["schema.prisma"], .file "model Post \x7b title String \x7d".toUTF8)], []⟩

/-- A plan for a model that the schema declares. -/
def draftPlan : ModulePlan :=
  ⟨"Post", "", none, none, by decide +kernel⟩

theorem new_draftPlan : ModulePlan.new "Post" "" none = .ok draftPlan := by
  have hblank : ¬ isBlankName "Post" = true := by decide +kernel
  rw [ModulePlan.new, dif_neg hblank]
  rfl

/-- If the draft comes before the schema, the search ends at the draft, and the module is
    generated without the fields that the schema alone gives it. -/
theorem locateSchema_decides_draft :
    ModulePlan.new "Post" "" none = .ok draftPlan
      ∧ (locateSchema ["app.prisma", "draft.prisma", "schema.prisma"]).run draftDisk
        = (.unusable "draft.prisma" (.unclosed ⟨.model, "Post", 0⟩), draftDisk)
      ∧ (draftPlan.withSchema (.unusable "draft.prisma" (.unclosed ⟨.model, "Post", 0⟩))
          ).generate.run.run draftDisk = draftPlan.generate.run.run draftDisk
      ∧ ∃ index : Index,
          (locateSchema ["app.prisma", "schema.prisma"]).run draftDisk
              = (.loaded "schema.prisma" index, draftDisk)
            ∧ (draftPlan.withSchema (.loaded "schema.prisma" index)).fields ≠ none := by
  have happ : ∀ candidate ∈ ["app.prisma"], Absent draftDisk candidate := by
    intro candidate hmem entry hfind
    have hnone : (draftDisk.find "app.prisma").toOption.isNone = true := by decide +kernel
    rw [← List.mem_singleton.mp hmem, hfind] at hnone
    cases hnone
  obtain ⟨-, -, hdecides, hwithout⟩ := locateSchema_decides new_draftPlan draftDisk
    ["app.prisma", "draft.prisma", "schema.prisma"]
  have hdraft := hdecides ["app.prisma"] "draft.prisma" _ ⟨happ, rfl⟩ draftDisk
    ["schema.prisma"] fun _ _ => rfl
  have hschema := hdecides ["app.prisma"] "schema.prisma" _ ⟨happ, rfl⟩ draftDisk [] fun _ _ => rfl
  rw [outcomeAt_text] at hdraft hschema
  refine ⟨new_draftPlan, hdraft.trans ?_, (hwithout _).2 (.unusable _ _), ?_⟩
  · have hread : Index.read "model Post \x7b" = .error ⟨.model, "Post", 0⟩ := by rfl
    rw [hread]
  · have hread : ((Index.read "model Post \x7b title String \x7d").toOption.bind
        (·.find? "Post")).isSome = true := by decide +kernel
    cases hindex : Index.read "model Post \x7b title String \x7d" with
    | error header => rw [hindex] at hread; cases hread
    | ok index =>
        rw [hindex] at hread hschema
        refine ⟨index, hschema, fun hfields => ?_⟩
        cases (hwithout _).1.mp hfields with
        | loaded _ hnone =>
            change (index.find? "Post").isSome = true at hread
            rw [hnone] at hread
            cases hread

end Stencil.Project
