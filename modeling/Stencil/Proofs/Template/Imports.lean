import Stencil.Command.Run
import Stencil.Proofs.Files.WorkingDirectory
import Stencil.Proofs.Template.Outputs
import Stencil.Proofs.Template.Specifiers

/-! # Imports of generated files

    The built-in templates of a module import from each other's files and from files of
    the server.  Template, output paths and the steps that are printed in the end spell the
    module name each on their own; still every relative import, filled in and followed from
    the file that it stands in, leads to one of those files (`imports_resolve`). -/

namespace Stencil

open Files (Location follow)
open Schema (Model)
open Stencil.Path (IsName)
open TypeScript

namespace ModuleTemplate

variable {template : ModuleTemplate} {module specifier : String} {fields : Option Model}

/-! ## The imports of a module -/

/-- The files that those of a module may import. -/
def importable (module : String) : List String :=
  all.map (·.outputPath module) ++ ServerFile.all.map (·.output)

/-- The template of controllers. -/
def controllerTemplate : ModuleTemplate :=
  ⟨"controller.ts.tpl", .controllers, "controller", Template.controller⟩

theorem controllerTemplate_mem : controllerTemplate ∈ all := by
  simp [all, controllerTemplate]

/-- The template of routers. -/
def routerTemplate : ModuleTemplate :=
  ⟨"route.ts.tpl", .routes, "route", Template.router⟩

theorem routerTemplate_mem : routerTemplate ∈ all := by
  simp [all, routerTemplate]

/-- What a controller imports a service from, in parts. -/
def serviceParts (verb : String) : Parts :=
  .slot "../services/".toList .services
    (.slot ('/' :: (pascalCase verb).toList) .pascal (.last "Service".toList))

/-- What the templates of a category import from, in parts. -/
def importsOf : Category → List Parts
  | .services => [.last "../../database".toList, .last "../../error/AppError".toList]
  | .controllers =>
      (all.filter fun template => template.category = .services).map fun template =>
        serviceParts template.verb
  | .routes =>
      [.last "../middleware/auth".toList,
        .slot "../controllers/".toList .pascal (.last "Controller".toList)]

/-- A template imports from nothing else than the files of its category do. -/
theorem relativeSpecifiers_subset (h : template ∈ all) :
    relativeSpecifiers template.builtin
      ⊆ (importsOf template.category).map fun parts => String.ofList parts.text := by
  have hall : ∀ template ∈ all, relativeSpecifiers template.builtin
      ⊆ (importsOf template.category).map fun parts => String.ofList parts.text := by
    simp only [all, List.forall_mem_cons]
    refine ⟨?_, ?_, ?_, ?_, ?_, ?_, ?_, List.forall_mem_nil _⟩
    all_goals
      apply SpeltOut.relativeSpecifiers_subset
      · repeat (first | exact SpeltOut.nil | apply SpeltOut.cons rfl)
      · decide +kernel
  exact hall template h

/-! ## Paths in their names -/

/-- Names with slashes between them end as the last of them does. -/
theorem endsInSlash_intercalate {place : Location} {last : String}
    (hplace : place.getLast? = some last) (hlast : IsFileName last) :
    "/".intercalate place ≠ "" ∧ Path.endsInSlash ("/".intercalate place) = false := by
  obtain ⟨above, rfl⟩ := List.getLast?_eq_some_iff.mp hplace
  have hend : ("/".intercalate (above ++ [last])).toList.getLast? = some 's' := by
    by_cases hne : above = []
    · rw [hne, List.nil_append, String.intercalate_singleton]
      exact hlast.2
    · rw [String.intercalate_append_of_ne_nil hne (List.cons_ne_nil _ _),
        String.intercalate_singleton, String.toList_append, List.getLast?_append, hlast.2]
      rfl
  refine ⟨(ne_of_getLast? hend).1, ?_⟩
  rw [Path.endsInSlash, hend]
  rfl

/-- A name is put after others with a slash. -/
theorem join_intercalate {place : Location} {last name : String}
    (hplace : place.getLast? = some last) (hlast : IsFileName last) (hname : IsFileName name) :
    Path.join ("/".intercalate place) name = "/".intercalate (place ++ [name]) := by
  obtain ⟨hne, hslash⟩ := endsInSlash_intercalate hplace hlast
  have hneither : ¬ (("/".intercalate place).isEmpty || Path.endsInSlash ("/".intercalate place))
      = true := by
    rw [hslash, Bool.or_false, String.isEmpty_iff]
    exact hne
  have hplace' : place ≠ [] := by
    rintro rfl
    cases hplace
  rw [Path.join, hname.relative.1, if_neg Bool.false_ne_true, if_neg hneither,
    String.intercalate_append_of_ne_nil hplace' (List.cons_ne_nil _ _),
    String.intercalate_singleton]

/-- An output path is its names with slashes between them. -/
theorem outputPath_eq_intercalate (h : template ∈ all) (hmodule : '/' ∉ module.toList) :
    template.outputPath module = "/".intercalate (template.outputNames module) := by
  have hpascal : '/' ∉ (pascalCase module).toList :=
    fun hmem => hmodule (mem_of_mem_pascalCase isSign_slash hmem)
  have hlower : '/' ∉ (Text.lowerCase module).toList :=
    fun hmem => hmodule (mem_of_mem_lowerCase isSign_slash hmem)
  have hverb : '/' ∉ (pascalCase template.verb).toList :=
    fun hmem => not_mem_verb h (mem_of_mem_pascalCase isSign_slash hmem)
  rw [outputPath, outputNames]
  cases template.category with
  | services =>
      have hdirectory : IsFileName (servicesDirectory module) :=
        IsFileName.append hpascal ⟨by decide, by decide⟩
      have hstem : '/' ∉ (pascalCase template.verb ++ pascalCase module).toList := by
        rw [String.toList_append, List.mem_append, not_or]
        exact ⟨hverb, hpascal⟩
      have hfile : IsFileName (pascalCase template.verb ++ pascalCase module ++ "Service.ts") :=
        IsFileName.append hstem ⟨by decide, by decide⟩
      have hbase : Path.join "src/services" (servicesDirectory module) = _ :=
        @join_intercalate ["src", "services"] "services" _ rfl ⟨by decide, by decide⟩ hdirectory
      rw [hbase]
      exact join_intercalate rfl hdirectory hfile
  | controllers =>
      have hfile : IsFileName (pascalCase module ++ "Controller.ts") :=
        IsFileName.append hpascal ⟨by decide, by decide⟩
      exact @join_intercalate ["src", "controllers"] "controllers" _ rfl ⟨by decide, by decide⟩ hfile
  | routes =>
      have hfile : IsFileName (Text.lowerCase module ++ "Routes.ts") :=
        IsFileName.append hlower ⟨by decide, by decide⟩
      exact @join_intercalate ["src", "routes"] "routes" _ rfl ⟨by decide, by decide⟩ hfile

theorem names_outputPath (h : template ∈ all) (hmodule : '/' ∉ module.toList) :
    Path.names (template.outputPath module) = template.outputNames module := by
  obtain ⟨base, name, hpath, hname, -, hnames, -⟩ := outputPath_eq_join h hmodule
  rw [hpath, hname.names_join, hnames]

/-- The ending of a path is that of its last name. -/
theorem intercalate_concat_append (place : Location) (name ending : String) :
    "/".intercalate (place ++ [name ++ ending]) = "/".intercalate (place ++ [name]) ++ ending := by
  by_cases hne : place = []
  · subst hne
    simp
  · rw [String.intercalate_append_of_ne_nil hne (List.cons_ne_nil _ _),
      String.intercalate_append_of_ne_nil hne (List.cons_ne_nil _ _),
      String.intercalate_singleton, String.intercalate_singleton, String.append_assoc,
      String.append_assoc, String.append_assoc]

/-! ## Specifiers filled in -/

theorem slotless_of_no_brace {text : List Char} (h : '{' ∉ text) : Slotless text :=
  slotless_of_braces fun hbraces => h (hbraces.subset (List.mem_cons_self ..))

theorem plain_importsOf {category : Category} {parts : Parts} (h : parts ∈ importsOf category) :
    parts.Plain := by
  have hverb : ∀ template ∈ all, '{' ∉ (pascalCase template.verb).toList := by decide +kernel
  cases category with
  | services =>
      simp only [importsOf, List.mem_cons, List.not_mem_nil, or_false] at h
      rcases h with rfl | rfl
      · exact slotless_of_no_brace (by decide)
      · exact slotless_of_no_brace (by decide)
  | controllers =>
      obtain ⟨template, htemplate, rfl⟩ := List.mem_map.mp h
      have hbrace := hverb template (List.mem_of_mem_filter htemplate)
      refine ⟨slotless_of_no_brace (by decide), slotless_of_no_brace ?_,
        slotless_of_no_brace (by decide)⟩
      rw [List.mem_cons, not_or]
      exact ⟨by decide, hbrace⟩
  | routes =>
      simp only [importsOf, List.mem_cons, List.not_mem_nil, or_false] at h
      rcases h with rfl | rfl
      · exact slotless_of_no_brace (by decide)
      · exact ⟨slotless_of_no_brace (by decide), slotless_of_no_brace (by decide)⟩

theorem fillTemplate_parts {parts : Parts} (h : parts.Plain) (module : String)
    (fields : Option Model) : fillTemplate (String.ofList parts.text) module fields
      = String.ofList (parts.fill (slotText module fields)) := by
  refine String.toList_inj.mp ?_
  rw [toList_fillTemplate, String.toList_ofList, String.toList_ofList, Parts.pieceFill_text h]

theorem fill_serviceParts (verb module : String) (fields : Option Model) :
    String.ofList ((serviceParts verb).fill (slotText module fields))
      = "/".intercalate ["..", "services", servicesDirectory module,
          pascalCase verb ++ pascalCase module ++ "Service"] := by
  refine String.toList_inj.mp ?_
  simp [serviceParts, Parts.fill, slotText, Slot.filling, Spellings.of]

theorem fill_controller (module : String) (fields : Option Model) :
    String.ofList (Parts.fill (slotText module fields)
        (.slot "../controllers/".toList .pascal (.last "Controller".toList)))
      = "/".intercalate ["..", "controllers", pascalCase module ++ "Controller"] := by
  refine String.toList_inj.mp ?_
  simp [Parts.fill, slotText, Slot.filling, Spellings.of]

/-! ## Imports followed -/

/-- Where a specifier leads, from the names of it and of the file that it stands in. -/
theorem resolve_of_names {importer file : String} {directory : Location} {steps : List String}
    (himporter : Path.names importer = directory ++ [file]) (hsteps : Path.names specifier = steps) :
    resolve importer specifier = follow directory steps := by
  rw [resolve, himporter, List.dropLast_concat, hsteps]

/-- A specifier leads to the file that has its last name and the ending of scripts. -/
theorem resolves_of_eq {importer target stem : String} {place : Location}
    (hresolve : resolve importer specifier = place ++ [stem])
    (htarget : target = "/".intercalate (place ++ [stem ++ ".ts"])) :
    Resolves importer specifier target := by
  refine Or.inl ?_
  rw [hresolve, htarget, intercalate_concat_append]

/-- The services import files of the server. -/
theorem resolves_of_services {importer file name : String} {parts : Parts}
    (himporter : Path.names importer = ["src", "services", name] ++ [file])
    (hparts : parts ∈ importsOf .services) (module : String) (fields : Option Model) :
    ∃ target ∈ importable module,
      Resolves importer (String.ofList (parts.fill (slotText module fields))) target := by
  have hserver : ∀ target ∈ ServerFile.all.map (·.output), target ∈ importable module :=
    fun target htarget => List.mem_append_right _ htarget
  simp only [importsOf, List.mem_cons, List.not_mem_nil, or_false] at hparts
  rcases hparts with rfl | rfl
  · have hsteps : Path.names (String.ofList "../../database".toList) = ["..", "..", "database"] := by
      decide +kernel
    have hresolve := resolve_of_names himporter hsteps
    refine ⟨"src/database/index.ts", hserver _ (by decide), Or.inr ?_⟩
    show _ = "/".intercalate (resolve importer (String.ofList "../../database".toList)) ++ _
    rw [hresolve]
    rfl
  · have hsteps : Path.names (String.ofList "../../error/AppError".toList)
        = ["..", "..", "error", "AppError"] := by
      decide +kernel
    exact ⟨"src/error/AppError.ts", hserver _ (by decide),
      @resolves_of_eq _ _ _ _ ["src", "error"] (resolve_of_names himporter hsteps) rfl⟩

/-- What ends in a letter without slashes is a name. -/
theorem isName_append {front back : String} {c : Char} (hfront : '/' ∉ front.toList)
    (hback : '/' ∉ back.toList) (hlast : back.toList.getLast? = some c) (hc : c ≠ '.') :
    IsName (front ++ back) := by
  have hend : (front ++ back).toList.getLast? = some c := by
    rw [String.toList_append, List.getLast?_append, hlast]
    rfl
  have hne : ∀ dots : String, dots.toList.getLast? ≠ some c → front ++ back ≠ dots := by
    rintro dots hdots rfl
    exact hdots hend
  have hdot : some '.' ≠ some c := fun h => hc (Option.some.inj h).symm
  refine ⟨hne "" (by simp), hne "." hdot, hne ".." hdot, ?_⟩
  rw [String.toList_append, List.mem_append, not_or]
  exact ⟨hfront, hback⟩

/-- Out of the directory of an importing file and into a sibling of it. -/
theorem resolves_of_sibling {importer file sibling target stem : String} {place : Location}
    (himporter : Path.names importer = ["src", sibling] ++ [file])
    (hplace : ∀ name ∈ place ++ [stem], IsName name)
    (hspecifier : specifier = "/".intercalate (".." :: (place ++ [stem])))
    (htarget : target = "/".intercalate ("src" :: (place ++ [stem ++ ".ts"]))) :
    Resolves importer specifier target := by
  have hsteps : Path.names specifier = ".." :: (place ++ [stem]) := by
    rw [hspecifier]
    refine Path.names_intercalate fun name hname => ?_
    rcases List.mem_cons.mp hname with rfl | hmem
    · decide
    · exact ⟨(hplace name hmem).ne_empty, (hplace name hmem).no_slash⟩
  have hup : follow ["src", sibling] (".." :: (place ++ [stem]))
      = follow ["src"] (place ++ [stem]) := rfl
  refine @resolves_of_eq _ _ _ stem ("src" :: place) ?_ htarget
  rw [resolve_of_names himporter hsteps, hup, Files.follow_of_no_dots fun name hname =>
    ⟨(hplace name hname).ne_dot, (hplace name hname).ne_dots⟩]
  rfl

theorem append_ending (front back whole : String) (h : back ++ ".ts" = whole) :
    front ++ back ++ ".ts" = front ++ whole := by
  rw [String.append_assoc, h]

/-- Controllers import services of their module. -/
theorem resolves_of_controllers {importer file : String} {parts : Parts}
    (himporter : Path.names importer = ["src", "controllers"] ++ [file])
    (hparts : parts ∈ importsOf .controllers) (hmodule : '/' ∉ module.toList)
    (fields : Option Model) : ∃ target ∈ importable module,
      Resolves importer (String.ofList (parts.fill (slotText module fields))) target := by
  have hpascal : '/' ∉ (pascalCase module).toList :=
    fun hmem => hmodule (mem_of_mem_pascalCase isSign_slash hmem)
  obtain ⟨service, hservice, rfl⟩ := List.mem_map.mp hparts
  obtain ⟨hall, hcategory⟩ := List.mem_filter.mp hservice
  have hverb : '/' ∉ (pascalCase service.verb).toList :=
    fun hmem => not_mem_verb hall (mem_of_mem_pascalCase isSign_slash hmem)
  have hstem : '/' ∉ (pascalCase service.verb ++ pascalCase module).toList := by
    rw [String.toList_append, List.mem_append, not_or]
    exact ⟨hverb, hpascal⟩
  refine ⟨service.outputPath module, List.mem_append_left _ (List.mem_map.mpr ⟨service, hall, rfl⟩),
    @resolves_of_sibling _ _ _ _ _ _ ["services", servicesDirectory module] himporter ?_
      (fill_serviceParts service.verb module fields) ?_⟩
  · intro name hname
    simp only [List.cons_append, List.nil_append, List.mem_cons, List.not_mem_nil, or_false]
      at hname
    rcases hname with rfl | rfl | rfl
    · decide
    · exact isName_append hpascal (by decide) rfl (by decide)
    · exact isName_append hstem (by decide) rfl (by decide)
  · rw [outputPath_eq_intercalate hall hmodule, outputNames]
    simp only [of_decide_eq_true hcategory]
    rw [← append_ending _ "Service" "Service.ts" (by decide)]
    rfl

/-- Routers import the controller of their module, and a file of the server. -/
theorem resolves_of_routes {importer file : String} {parts : Parts}
    (himporter : Path.names importer = ["src", "routes"] ++ [file])
    (hparts : parts ∈ importsOf .routes) (hmodule : '/' ∉ module.toList) (fields : Option Model) :
    ∃ target ∈ importable module,
      Resolves importer (String.ofList (parts.fill (slotText module fields))) target := by
  simp only [importsOf, List.mem_cons, List.not_mem_nil, or_false] at hparts
  rcases hparts with rfl | rfl
  · have hspecifier : String.ofList "../middleware/auth".toList
        = "/".intercalate [".." , "middleware", "auth"] := by
      decide +kernel
    have hserver : "src/middleware/auth.ts" ∈ ServerFile.all.map (·.output) := by decide
    exact ⟨_, List.mem_append_right _ hserver,
      @resolves_of_sibling _ _ _ _ _ "auth" ["middleware"] himporter (by decide) hspecifier
        (by decide)⟩
  · have hpascal : '/' ∉ (pascalCase module).toList :=
      fun hmem => hmodule (mem_of_mem_pascalCase isSign_slash hmem)
    have hcontroller : controllerTemplate.outputPath module ∈ importable module :=
      List.mem_append_left _ (List.mem_map.mpr ⟨_, controllerTemplate_mem, rfl⟩)
    refine ⟨_, hcontroller, @resolves_of_sibling _ _ _ _ _ _ ["controllers"] himporter ?_
      (fill_controller module fields) ?_⟩
    · intro name hname
      simp only [List.cons_append, List.nil_append, List.mem_cons, List.not_mem_nil, or_false]
        at hname
      rcases hname with rfl | rfl
      · decide
      · exact isName_append hpascal (by decide) rfl (by decide)
    · rw [outputPath_eq_intercalate controllerTemplate_mem hmodule, outputNames,
        ← append_ending _ "Controller" "Controller.ts" (by decide)]
      rfl

/-- Every import of a template, filled in, leads to a file of the module or the server. -/
theorem resolves_importsOf (h : template ∈ all) (hmodule : '/' ∉ module.toList)
    {parts : Parts} (hparts : parts ∈ importsOf template.category) (fields : Option Model) :
    ∃ target ∈ importable module, Resolves (template.outputPath module)
      (String.ofList (parts.fill (slotText module fields))) target := by
  have hnames := names_outputPath h hmodule
  rw [outputNames] at hnames
  cases hcategory : template.category with
  | services =>
      simp only [hcategory] at hnames hparts
      exact resolves_of_services hnames hparts module fields
  | controllers =>
      simp only [hcategory] at hnames hparts
      exact resolves_of_controllers hnames hparts hmodule fields
  | routes =>
      simp only [hcategory] at hnames hparts
      exact resolves_of_routes hnames hparts hmodule fields

/-! ## The import that is printed -/

/-- What the application is told to import a router from. -/
def routerSpecifier (module : String) : String :=
  "./routes/" ++ (Text.lowerCase module ++ "Routes")

theorem routerImport_eq (module : String) : Command.routerImport module
    = "import " ++ (Text.lowerCase module ++ "Routes") ++ " from \"" ++ routerSpecifier module
      ++ "\";" := by
  refine String.toList_inj.mp ?_
  simp [Command.routerImport, routerSpecifier]

/-- From the application this leads to the router. -/
theorem outputPath_eq_resolve (h : template ∈ all) (hcategory : template.category = .routes)
    (hmodule : '/' ∉ module.toList) : template.outputPath module
      = "/".intercalate (resolve "src/app.ts" (routerSpecifier module)) ++ ".ts" := by
  have hlower : '/' ∉ (Text.lowerCase module).toList :=
    fun hmem => hmodule (mem_of_mem_lowerCase isSign_slash hmem)
  have hname : IsName (Text.lowerCase module ++ "Routes") :=
    isName_append hlower (by decide) rfl (by decide)
  have hsteps : Path.names (routerSpecifier module)
      = [".", "routes", Text.lowerCase module ++ "Routes"] := by
    have hpath : routerSpecifier module
        = "/".intercalate [".", "routes", Text.lowerCase module ++ "Routes"] := by
      refine String.toList_inj.mp ?_
      simp [routerSpecifier]
    rw [hpath]
    refine Path.names_intercalate fun name hmem => ?_
    simp only [List.mem_cons, List.not_mem_nil, or_false] at hmem
    rcases hmem with rfl | rfl | rfl
    · decide
    · decide
    · exact ⟨hname.ne_empty, hname.no_slash⟩
  have happ : Path.names "src/app.ts" = ["src"] ++ ["app.ts"] := by decide
  have hresolve : resolve "src/app.ts" (routerSpecifier module)
      = ["src", "routes"] ++ [Text.lowerCase module ++ "Routes"] := by
    rw [resolve_of_names happ hsteps]
    show follow ["src", "routes"] [Text.lowerCase module ++ "Routes"] = _
    refine Files.follow_of_no_dots (fun name hmem => ?_) _
    rw [List.mem_singleton.mp hmem]
    exact ⟨hname.ne_dot, hname.ne_dots⟩
  rw [hresolve, ← intercalate_concat_append, append_ending _ "Routes" "Routes.ts" (by decide),
    outputPath_eq_intercalate h hmodule, outputNames, hcategory]
  rfl

theorem moduleSteps_eq (name : String) : ∃ front back : String,
    Command.moduleSteps name = front ++ Command.routerImport name ++ back := by
  have hcut : ∀ a b router c d e f : String,
      a ++ b ++ router ++ c ++ d ++ e ++ f = a ++ b ++ router ++ (c ++ d ++ e ++ f) := by
    intro a b router c d e f
    simp only [String.append_assoc]
  exact ⟨_, _, hcut _ _ _ _ _ _ _⟩

/-- A run that generates a module prints the import of its router. -/
theorem printed_of_add {name : String} {given : Option String} {settings : Settings}
    {disk : Files.Disk} (h : ((Command.add name given settings).run disk).1.failure = none) :
    ∃ front back : String, ((Command.add name given settings).run disk).1.printed
      = front ++ Command.routerImport name ++ back := by
  rw [Command.add, Files.Job.run_bind] at h ⊢
  cases hpaths : ((Command.schemaPaths given settings).run disk).1 with
  | error failure =>
      rw [hpaths] at h
      cases h
  | ok paths =>
      simp only [hpaths, Files.Job.run_bind] at h ⊢
      generalize (Project.locateSchema paths).run _ = found at h ⊢
      cases hplan : Project.ModulePlan.new name settings.outputRoot settings.overrides with
      | error cause =>
          rw [hplan] at h
          cases h
      | ok plan =>
          simp only [hplan, Files.Job.run_bind] at h ⊢
          generalize (plan.withSchema found.1).generate.run.run found.2 = outcome at h ⊢
          obtain ⟨result, later⟩ := outcome
          cases result with
          | error cause =>
              simp only [Files.Job.run_pure] at h
              exact absurd h (Option.some_ne_none _)
          | ok report =>
              obtain ⟨front, back, hsteps⟩ := moduleSteps_eq name
              simp only [Files.Job.run_pure]
              rw [hsteps, ← String.append_assoc, ← String.append_assoc]
              exact ⟨_, back, rfl⟩

end ModuleTemplate

open ModuleTemplate

/-- **Imports of generated files lead to generated files.**  What a template imports from
    stands between quotes in its text, and filled in in the text that it makes; followed from
    the file that it makes it leads to a file of the same module or one of the server.  So
    does the import of the router that is printed in the end, from the application. -/
theorem imports_resolve {module : String} (hmodule : '/' ∉ module.toList) (fields : Option Model) :
    (∀ template ∈ ModuleTemplate.all, ∀ specifier ∈ relativeSpecifiers template.builtin,
      (∃ front back : String, template.builtin = front ++ "\"" ++ specifier ++ "\"" ++ back
        ∧ fillTemplate template.builtin module fields
          = fillTemplate front module fields ++ "\"" ++ fillTemplate specifier module fields ++ "\""
            ++ fillTemplate back module fields)
      ∧ ∃ target ∈ importable module,
        Resolves (template.outputPath module) (fillTemplate specifier module fields) target)
    ∧ (∀ (given : Option String) (settings : Settings) (disk : Files.Disk),
      ((Command.add module given settings).run disk).1.failure = none →
      ∃ front back : String, ((Command.add module given settings).run disk).1.printed
        = front ++ ("import " ++ (Text.lowerCase module ++ "Routes") ++ " from \""
          ++ routerSpecifier module ++ "\";") ++ back)
    ∧ ∀ template ∈ ModuleTemplate.all, template.category = .routes →
      template.outputPath module
        = "/".intercalate (resolve "src/app.ts" (routerSpecifier module)) ++ ".ts" := by
  refine ⟨fun template h specifier hspecifier => ⟨?_, ?_⟩, ?_, ?_⟩
  · obtain ⟨front, back, htext⟩ := of_mem_relativeSpecifiers hspecifier
    exact ⟨front, back, htext, by rw [htext, fillTemplate_quoted]⟩
  · obtain ⟨parts, hparts, rfl⟩ := List.mem_map.mp (relativeSpecifiers_subset h hspecifier)
    rw [fillTemplate_parts (plain_importsOf hparts)]
    exact resolves_importsOf h hmodule hparts fields
  · intro given settings disk hdone
    rw [← routerImport_eq]
    exact printed_of_add hdone
  · exact fun template h hcategory => outputPath_eq_resolve h hcategory hmodule

/-- A disk that has all files of a module. -/
def moduleDisk (module : String) : Files.Disk :=
  ⟨Ordered.ofList
    ([(["src"], .directory), (["src", "services"], .directory),
      (["src", "services", servicesDirectory module], .directory),
      (["src", "controllers"], .directory), (["src", "routes"], .directory)]
        ++ ModuleTemplate.all.map fun template =>
          (template.outputNames module, .file ByteArray.empty)), []⟩

/-- A controller imports a service of the same module, and the application its router. -/
theorem imports_resolve_todo :
    '/' ∉ "to-do".toList
      ∧ String.ofList (serviceParts "list").text ∈ relativeSpecifiers Template.controller
      ∧ fillTemplate (String.ofList (serviceParts "list").text) "to-do" none
        = "../services/ToDoServices/ListToDoService"
      ∧ (∃ target ∈ importable "to-do", Resolves "src/controllers/ToDoController.ts"
          "../services/ToDoServices/ListToDoService" target)
      ∧ (∃ front back : String,
        ((Command.add "to-do" none Settings.default).run (moduleDisk "to-do")).1.printed
          = front ++ "import to-doRoutes from \"./routes/to-doRoutes\";" ++ back)
      ∧ "src/routes/to-doRoutes.ts"
        = "/".intercalate (resolve "src/app.ts" "./routes/to-doRoutes") ++ ".ts" := by
  have hmodule : '/' ∉ "to-do".toList := by decide
  have hspecifier : String.ofList (serviceParts "list").text
      ∈ relativeSpecifiers Template.controller := by
    apply SpeltOut.mem_relativeSpecifiers
    · repeat (first | exact SpeltOut.nil | apply SpeltOut.cons rfl)
    · decide +kernel
  have hfilled : fillTemplate (String.ofList (serviceParts "list").text) "to-do" none
      = "../services/ToDoServices/ListToDoService" := by
    have hplain : (serviceParts "list").Plain :=
      @plain_importsOf .controllers _ (by decide +kernel)
    rw [fillTemplate_parts hplain, fill_serviceParts]
    decide +kernel
  have hcontroller : controllerTemplate.outputPath "to-do"
      = "src/controllers/ToDoController.ts" := by
    decide +kernel
  have hrouter : routerTemplate.outputPath "to-do" = "src/routes/to-doRoutes.ts" := by
    decide +kernel
  have himport : routerSpecifier "to-do" = "./routes/to-doRoutes" := by decide +kernel
  have hline : "import " ++ (Text.lowerCase "to-do" ++ "Routes") ++ " from \""
      ++ routerSpecifier "to-do" ++ "\";" = "import to-doRoutes from \"./routes/to-doRoutes\";" := by
    decide +kernel
  have hdone : ((Command.add "to-do" none Settings.default).run (moduleDisk "to-do")).1.failure
      = none := by
    decide +kernel
  obtain ⟨himports, hprinted, hrouters⟩ := imports_resolve hmodule none
  refine ⟨hmodule, hspecifier, hfilled, ?_, ?_, ?_⟩
  · rw [← hcontroller, ← hfilled]
    exact (himports _ controllerTemplate_mem _ hspecifier).2
  · rw [← hline]
    exact hprinted none _ _ hdone
  · rw [← hrouter, ← himport]
    exact hrouters _ routerTemplate_mem rfl

end Stencil
