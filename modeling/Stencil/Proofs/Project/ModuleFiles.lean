import Stencil.Files.Links
import Stencil.Proofs.Project.FirstCandidate
import Stencil.Proofs.Schema.Lookup
import Stencil.Proofs.Schema.RoundTrip
import Stencil.Proofs.Template.Filled

/-! # The files of a module, from the schema on

    A module is generated from the first schema file there is.  If that is a
    printing of a blueprint, and the name of the module means one of its models,
    every file of the module is its template filled in with the spellings of the
    name and the lines of the scalar fields of that model
    (`generate_from_printing`).

    The root must not go through the place of a file, and no symbolic link may stand there
    (`generate_at_detour_dangling`). -/

namespace Stencil.Project

open Files (Disk Entry Job LinkedDisk Location follow)
open Schema (Blueprint Index)

/-! ## Finding the schema -/

section Schema

variable {disk : Disk} {path text : String} {blueprint : Blueprint}

/-- A file with a printing of a blueprint is its index. -/
theorem outcomeAt_printed (path : String) (hprinted : blueprint.Printed text.toList) :
    outcomeAt path (.file text.toUTF8) = .loaded path blueprint.index := by
  obtain ⟨found, hfound, hindex⟩ := hprinted.blocks
  rw [outcomeAt_text, Index.read, hfound, ← hindex]
  rfl

/-- The search ends at the first path where there is something, here a printing. -/
theorem run_locateSchema {missing rest : List String}
    (hmissing : ∀ candidate ∈ missing, ∀ entry : Entry, disk.find candidate ≠ .ok entry)
    (h : disk.read path = .ok text.toUTF8) (hprinted : blueprint.Printed text.toList) :
    (locateSchema (missing ++ path :: rest)).run disk = (.loaded path blueprint.index, disk) := by
  have hfirst : First disk missing path (.file text.toUTF8) := ⟨hmissing, Disk.find_of_read h⟩
  rw [run_locateSchema_first hfirst, outcomeAt_printed path hprinted]

end Schema

/-! ## From the schema to the files -/

/-- What fills the slots of a template: the spellings of the name of the module, and
    the lines of the entries of its model. -/
def fillings (module : String) (entries : List Blueprint.Entry) : Slot → List Char
  | .pascal => (pascalCase module).toList
  | .lower => (Text.lowerCase module).toList
  | .upper => (Text.upperCase module).toList
  | .pascalPlural => (plural (pascalCase module)).toList
  | .lowerPlural => (plural (Text.lowerCase module)).toList
  | .services => (servicesDirectory module).toList
  | .fields => entries.flatMap Blueprint.Entry.line

/-- Whether the entries are those of the last model of a name in a blueprint. -/
def LastModel (blueprint : Blueprint) (name : Blueprint.Name)
    (entries : List Blueprint.Entry) : Prop :=
  ∃ before after : Blueprint, blueprint = before ++ .model name entries :: after
    ∧ ∀ pair ∈ after.filterMap Blueprint.Block.model?, pair.1 ≠ name.text

/-- The last model of a name is the one declared under it. -/
theorem model?_of_lastModel {blueprint : Blueprint} {name : Blueprint.Name}
    {entries : List Blueprint.Entry} (h : LastModel blueprint name entries) :
    blueprint.index.model? name.text = some (Blueprint.modelOf entries) := by
  obtain ⟨before, after, rfl, hlast⟩ := h
  have hnot : name.text ∉ (after.filterMap Blueprint.Block.model?).map Prod.fst := by
    intro hmem
    obtain ⟨pair, hpair, hname⟩ := List.mem_map.mp hmem
    exact hlast pair hpair hname
  rw [Index.model?, Blueprint.index, List.filterMap_append]
  exact Ordered.get?_ofList_append (Blueprint.modelOf entries) _ hnot

/-- Whether every file of a module is on a disk, its built-in template filled in. -/
def FilledIn (disk : Disk) (root module : String) (entries : List Blueprint.Entry) : Prop :=
  ∀ template ∈ ModuleTemplate.all, ∃ content : String,
    disk.read (Path.join root (template.outputPath module)) = .ok content.toUTF8
      ∧ Filled (fillings module entries) template.builtin.toList content.toList

/-- With a printing, the fields of the plan are those that the entries of the last model
    of the name declare. -/
theorem run_generateFrom {disk : Disk} {missing rest : List String} {path text : String}
    {blueprint : Blueprint} {name : Blueprint.Name} {entries : List Blueprint.Entry}
    {plan : ModulePlan}
    (hmissing : ∀ candidate ∈ missing, ∀ entry : Entry, disk.find candidate ≠ .ok entry)
    (hfile : disk.read path = .ok text.toUTF8) (hprinted : blueprint.Printed text.toList)
    (hmodel : LastModel blueprint name entries)
    (hfound : (blueprint.index.find? plan.name).map Prod.fst = some name.text) :
    (generateFrom (missing ++ path :: rest) plan).run disk
      = (ModulePlan.generate { plan with fields := some (Blueprint.modelOf entries) }).run.run
          disk := by
  obtain ⟨⟨_, model⟩, hfind, rfl⟩ := Option.map_eq_some_iff.mp hfound
  have hdeclared := (Index.means_of_find? hfind).2.symm.trans (model?_of_lastModel hmodel)
  obtain rfl := Option.some.inj hdeclared
  rw [generateFrom, Job.run_bind, run_locateSchema hmissing hfile hprinted]
  show (plan.withSchema _).generate.run.run disk = _
  rw [withSchema_loaded hfind]

/-- **Progress.**  If there is room for the files of the module, and the root does not go
    through the place of one that comes before another, generating succeeds. -/
theorem run_generateFrom_of_room {disk : Disk} (missing rest : List String) {path text : String}
    {blueprint : Blueprint} {name : Blueprint.Name} {entries : List Blueprint.Entry}
    (plan : ModulePlan)
    (hmissing : ∀ candidate ∈ missing, ∀ entry : Entry, disk.find candidate ≠ .ok entry)
    (hfile : disk.read path = .ok text.toUTF8) (hprinted : blueprint.Printed text.toList)
    (hmodel : LastModel blueprint name entries)
    (hfound : (blueprint.index.find? plan.name).map Prod.fst = some name.text)
    (hslash : '/' ∉ plan.name.toList) (hoverrides : plan.overrides = none)
    (hpast : ModuleTemplate.all.Pairwise fun template _ =>
      GoesPast disk plan.root (outputPlace disk plan.root plan.name template))
    (hroom : ∀ template ∈ ModuleTemplate.all,
      Room disk (outputFile plan.root plan.name template)) :
    ∃ (report : ModuleReport) (final : Disk),
      (generateFrom (missing ++ path :: rest) plan).run disk = (.ok report, final) := by
  rw [run_generateFrom hmissing hfile hprinted hmodel hfound]
  exact run_generateOf_of_room { plan with fields := some (Blueprint.modelOf entries) } hoverrides
    hslash (fun _ h => h) hpast hroom

/-- **From the schema to the files.**  Let the first path of a list at which there is
    anything hold a printing of a blueprint, let a module name without a slash mean
    a model of it whose fields have different names and where only relations quote the
    mark of relations, let there be nothing at the places of the files of the module,
    and let the root not go through one of them.  If the module is then generated,
    without overriding templates, each of its files is its built-in template with every
    slot filled in: with the spellings of the name, and with one line for each field of
    the model that is no relation. -/
theorem generate_from_printing {disk final : Disk} {missing rest : List String}
    {path text root module : String} {blueprint : Blueprint} {name : Blueprint.Name}
    {entries : List Blueprint.Entry} {plan : ModulePlan} {report : ModuleReport}
    (hmissing : ∀ candidate ∈ missing, ∀ entry : Entry, disk.find candidate ≠ .ok entry)
    (hfile : disk.read path = .ok text.toUTF8)
    (hprinted : blueprint.Printed text.toList)
    (hmodel : LastModel blueprint name entries)
    (hdistinct : (entries.filterMap Blueprint.Entry.fieldName?).Nodup)
    (hquotes : ∀ entry ∈ entries, entry.quotesRelation = true → entry.isRelation = true)
    (hfound : (blueprint.index.find? module).map Prod.fst = some name.text)
    (hslash : '/' ∉ module.toList)
    (hplan : ModulePlan.new module root none = .ok plan)
    (hfree : ∀ template ∈ ModuleTemplate.all,
      disk.entry? (outputPlace disk root module template) = none)
    (hroot : RootAvoids disk root module)
    (hrun : (generateFrom (missing ++ path :: rest) plan).run disk = (.ok report, final)) :
    FilledIn final root module entries := by
  obtain ⟨rfl, rfl, hoverrides⟩ := ModulePlan.of_new hplan
  rw [run_generateFrom hmissing hfile hprinted hmodel hfound] at hrun
  have hholds := holds_of_generateOf { plan with fields := some _ } hoverrides hslash
    (fun _ h => h) (ModuleTemplate.pairwise_outputNames plan.name) hroot hfree hrun
  intro template htemplate
  obtain ⟨hleads, hentry⟩ := hholds template htemplate
  refine ⟨_, hleads.read
    (ModuleTemplate.endsInSlash_join_outputPath htemplate hslash plan.root) hentry, ?_⟩
  have hfillings : fillings plan.name entries = fun slot =>
      (slot.filling (Spellings.of plan.name) (some (Blueprint.modelOf entries))).toList := by
    funext slot
    cases slot with
    | fields => exact (Blueprint.toList_members_modelOf hdistinct hquotes).symm
    | _ => rfl
  rw [hfillings]
  exact filled_fillTemplate _ _ _

/-! ## A blog -/

/-- A disk with the schema of a blog and a directory for routes, seen from one place. -/
def blogDisk (here : Location) : Disk :=
  ⟨Ordered.ofList [(["schema.prisma"], .file Blueprint.blogText.toUTF8), (["src"], .directory),
    (["src", "routes"], .directory)], here⟩

/-- A plan for the posts of the blog. -/
def postPlan (root : String) : ModulePlan :=
  ⟨"post", root, none, none, by decide +kernel⟩

theorem new_postPlan (root : String) : ModulePlan.new "post" root none = .ok (postPlan root) := by
  have hblank : ¬ isBlankName "post" = true := by decide +kernel
  rw [ModulePlan.new, dif_neg hblank]
  rfl

theorem lastModel_posts : LastModel Blueprint.blog Blueprint.postName Blueprint.postEntries :=
  ⟨[], [Blueprint.role, Blueprint.source], rfl, fun pair hpair => by cases hpair⟩

theorem quotes_posts : ∀ entry ∈ Blueprint.postEntries,
    entry.quotesRelation = true → entry.isRelation = true := by
  decide +kernel

theorem find?_posts :
    (Blueprint.blog.index.find? "post").map Prod.fst = some Blueprint.postName.text := by
  decide +kernel

/-- There is nothing where the files go, if there is no such name on the disk. -/
theorem free_posts {disk : Disk} {root : String}
    (h : ∀ template ∈ ModuleTemplate.all, disk.entry? (follow (disk.startOf root) (Path.names root)
      ++ template.outputNames "post") = none) :
    ∀ template ∈ ModuleTemplate.all, disk.entry? (outputPlace disk root "post" template) = none := by
  intro template htemplate
  rw [outputPlace_eq htemplate (by decide)]
  exact h template htemplate

/-- There is room for the posts below a root that is not long, if the way is clear. -/
theorem room_posts {disk : Disk} {root : String}
    (hclear : ∀ template ∈ ModuleTemplate.all, disk.Clear (disk.startOf root)
      (Path.names root ++ (template.outputNames "post").dropLast))
    (hroot : '\x00' ∉ root.toList ∧ root.utf8ByteSize < 4000) :
    ∀ template ∈ ModuleTemplate.all, Room disk (outputFile root "post" template) := by
  have hposts : ∀ template ∈ ModuleTemplate.all,
      (∀ name ∈ (template.outputNames "post").getLast?, Disk.isLongName name = false)
        ∧ '\x00' ∉ (template.outputPath "post").toList
        ∧ (template.outputPath "post").utf8ByteSize < 95 := by
    decide +kernel
  intro template htemplate
  obtain ⟨hshort, hnul, hlong⟩ := hposts template htemplate
  refine room_outputFile htemplate (by decide) (hclear template htemplate) hshort ⟨hroot.1, hnul⟩ ?_
  omega

/-- The posts are generated from the schema of the blog. -/
theorem generate_from_printing_posts : ∃ (report : ModuleReport) (final : Disk),
    (generateFrom ["app.prisma", "schema.prisma"] (postPlan "")).run (blogDisk [])
        = (.ok report, final)
      ∧ FilledIn final "" "post" Blueprint.postEntries := by
  have hmissing : ∀ candidate ∈ ["app.prisma"], ∀ entry : Entry,
      (blogDisk []).find candidate ≠ .ok entry := by
    intro candidate hmem entry hfind
    rw [List.mem_singleton.mp hmem] at hfind
    have hnone : ((blogDisk []).find "app.prisma").toOption.isNone = true := by decide +kernel
    rw [hfind] at hnone
    cases hnone
  have hfile : (blogDisk []).read "schema.prisma" = .ok Blueprint.blogText.toUTF8 := rfl
  have hfree : ∀ template ∈ ModuleTemplate.all,
      Disk.entry? (blogDisk []) (outputPlace (blogDisk []) "" "post" template) = none :=
    free_posts (by decide +kernel)
  have hroot : RootAvoids (blogDisk []) "" "post" := by
    intro template htemplate before after hnames hplace
    obtain ⟨rfl, rfl⟩ := List.append_eq_nil_iff.mp hnames.symm
    exact Disk.ne_root_of_free (hfree template htemplate) hplace.symm
  obtain ⟨report, final, hrun⟩ : ∃ (report : ModuleReport) (final : Disk),
      (generateFrom ["app.prisma", "schema.prisma"] (postPlan "")).run (blogDisk [])
        = (.ok report, final) :=
    run_generateFrom_of_room ["app.prisma"] [] (postPlan "") hmissing hfile Blueprint.blog_printed
      lastModel_posts find?_posts (by decide) rfl hroot.pairwise (room_posts (by decide +kernel) (by decide))
  exact ⟨report, final, hrun, generate_from_printing hmissing hfile Blueprint.blog_printed
    lastModel_posts (by decide +kernel) quotes_posts find?_posts (by decide) (new_postPlan "") hfree
    hroot hrun⟩

/-- A root that goes down through the place of the routes of the posts, and up again. -/
def detour : String := "postRoutes.ts/../../.."

/-- Below that root the files cannot all be there: the way to each goes through the
    place of one. -/
theorem not_filledIn_detour {disk : Disk} (hhere : disk.here = ["src", "routes"])
    (entries : List Blueprint.Entry) : ¬ FilledIn disk detour "post" entries := by
  intro h
  have hstart : disk.startOf detour = ["src", "routes"] := by
    rw [Disk.startOf, if_neg (by decide), hhere]
  have hrouter : ⟨"route.ts.tpl", .routes, "route", Template.router⟩ ∈ ModuleTemplate.all := by
    simp [ModuleTemplate.all]
  obtain ⟨content, hread, -⟩ := h _ hrouter
  obtain ⟨name, hlast, hdots⟩ := getLast?_outputFile hrouter
    (show '/' ∉ "post".toList by decide) detour
  obtain ⟨front, hfront⟩ := List.getLast?_eq_some_iff.mp hlast
  have hfind := Disk.find_of_read hread
  -- what is read is a file
  have hentry := Disk.entry?_of_find hlast hdots hfind
  change disk.entry? (outputPlace disk detour "post" _) = _ at hentry
  rw [outputPlace_eq hrouter (by decide), hstart] at hentry
  have hplace : follow ["src", "routes"] (Path.names detour)
      ++ ModuleTemplate.outputNames ⟨"route.ts.tpl", .routes, "route", Template.router⟩ "post"
        = ["src", "routes", "postRoutes.ts"] := by
    decide +kernel
  rw [hplace] at hentry
  -- but the way to it goes through the same place
  obtain rfl : ["postRoutes.ts", "..", "..", "..", "src", "routes"] = front := by
    rw [outputFile, ModuleTemplate.names_join_outputPath hrouter (by decide)] at hfront
    have hdrop := congrArg List.dropLast hfront
    rw [List.dropLast_concat] at hdrop
    rw [← hdrop]
    decide +kernel
  have hdirectory := Disk.directory_of_find hfront (by decide) hfind
  change disk.entry? (disk.startOf (outputFile detour "post" _) ++ _) = _ at hdirectory
  rw [startOf_outputFile hrouter (by decide), hstart] at hdirectory
  cases hdirectory.symm.trans hentry

/-- The disk of the blog, with a link where the file of the routes goes; there is nothing
    where it leads. -/
def danglingBlog : LinkedDisk :=
  ⟨blogDisk [], Ordered.ofList [(["src", "routes", "postRoutes.ts"], "gone.ts")]⟩

/-- At that root everything is as asked, and generating succeeds, but a directory is
    made where the file of the routes goes.

    With a dangling link at that place, too, nothing is found at the paths of the files,
    and generating succeeds, but there is no file of the routes in the end. -/
theorem generate_at_detour_dangling :
    (Blueprint.blog.Printed Blueprint.blogText.toList
      ∧ (blogDisk ["src", "routes"]).read "../../schema.prisma" = .ok Blueprint.blogText.toUTF8
      ∧ LastModel Blueprint.blog Blueprint.postName Blueprint.postEntries
      ∧ (Blueprint.postEntries.filterMap Blueprint.Entry.fieldName?).Nodup
      ∧ (∀ entry ∈ Blueprint.postEntries,
          entry.quotesRelation = true → entry.isRelation = true)
      ∧ (Blueprint.blog.index.find? "post").map Prod.fst = some Blueprint.postName.text
      ∧ '/' ∉ "post".toList
      ∧ ModulePlan.new "post" detour none = .ok (postPlan detour)
      ∧ (∀ template ∈ ModuleTemplate.all, Disk.entry? (blogDisk ["src", "routes"])
          (outputPlace (blogDisk ["src", "routes"]) detour "post" template) = none)
      ∧ ∃ (report : ModuleReport) (final : Disk),
          (generateFrom ["../../schema.prisma"] (postPlan detour)).run
              (blogDisk ["src", "routes"]) = (.ok report, final)
            ∧ ¬ FilledIn final detour "post" Blueprint.postEntries)
    ∧ danglingBlog.read "schema.prisma" = .ok Blueprint.blogText.toUTF8
      ∧ ModulePlan.new "post" "" none = .ok (postPlan "")
      ∧ (∀ template ∈ ModuleTemplate.all,
          (danglingBlog.find (outputFile "" "post" template)).toOption = none)
      ∧ ((generateFrom ["schema.prisma"] (postPlan "")).runLinked danglingBlog).1.isOk = true
      ∧ (((generateFrom ["schema.prisma"] (postPlan "")).runLinked danglingBlog).2.find
          "src/routes/postRoutes.ts").toOption = none := by
  have hfile : (blogDisk ["src", "routes"]).read "../../schema.prisma"
      = .ok Blueprint.blogText.toUTF8 := rfl
  have hpast : ModuleTemplate.all.Pairwise fun template _ => GoesPast (blogDisk ["src", "routes"])
      detour (outputPlace (blogDisk ["src", "routes"]) detour "post" template) := by
    have hparts : ModuleTemplate.all.Pairwise fun template _ =>
        ∀ n ≤ (Path.names detour).length, follow ["src", "routes"] ((Path.names detour).take n)
          ≠ follow ["src", "routes"] (Path.names detour) ++ template.outputNames "post" := by
      decide +kernel
    refine hparts.imp_of_mem fun {template _} htemplate _ h => goesPast_of_take ?_
    rw [outputPlace_eq htemplate (by decide)]
    exact h
  obtain ⟨report, final, hrun⟩ : ∃ (report : ModuleReport) (final : Disk),
      (generateFrom ["../../schema.prisma"] (postPlan detour)).run (blogDisk ["src", "routes"])
        = (.ok report, final) :=
    run_generateFrom_of_room [] [] (postPlan detour) (by simp) hfile Blueprint.blog_printed
      lastModel_posts find?_posts (by decide) rfl hpast (room_posts (by decide +kernel) (by decide))
  have hgrows := Job.grows_run (blogDisk ["src", "routes"])
    (generateFrom ["../../schema.prisma"] (postPlan detour))
  rw [hrun] at hgrows
  refine ⟨⟨Blueprint.blog_printed, hfile, lastModel_posts, by decide +kernel, quotes_posts,
    find?_posts, by decide, new_postPlan detour, free_posts (by decide +kernel), report, final,
    hrun, not_filledIn_detour hgrows.here Blueprint.postEntries⟩,
    rfl, new_postPlan "", by decide +kernel, ?_⟩
  decide +kernel

end Stencil.Project
