import Stencil.Template.Catalog
import Stencil.Proofs.Path
import Stencil.Proofs.Spelling

/-! # Where the files of a module go

    The names on the path of each file that a template makes
    (`names_outputPath`).  No two templates make the same file, and no file stands
    where another one needs a directory (`outputNames_not_prefix`). -/

namespace Stencil.ModuleTemplate

/-- The names on the path of the file that a template makes for a module. -/
def outputNames (template : ModuleTemplate) (module : String) : List String :=
  match template.category with
  | .services => ["src", "services", servicesDirectory module,
      pascalCase template.verb ++ pascalCase module ++ "Service.ts"]
  | .controllers => ["src", "controllers", pascalCase module ++ "Controller.ts"]
  | .routes => ["src", "routes", Text.lowerCase module ++ "Routes.ts"]

variable {module : String}

/-! ## Names of files -/

/-- Whether a name is one of a generated file: it ends in `s` and has no slash. -/
def IsFileName (name : String) : Prop :=
  '/' ∉ name.toList ∧ name.toList.getLast? = some 's'

/-- What ends in a file name without a slash before it is one. -/
theorem IsFileName.append {front back : String} (hfront : '/' ∉ front.toList)
    (hback : IsFileName back) : IsFileName (front ++ back) := by
  constructor
  · rw [String.toList_append, List.mem_append, not_or]
    exact ⟨hfront, hback.1⟩
  · rw [String.toList_append, List.getLast?_append, hback.2]
    rfl

/-- What ends in `s` is neither empty nor dots. -/
theorem ne_of_getLast? {name : String} (h : name.toList.getLast? = some 's') :
    name ≠ "" ∧ name ≠ "." ∧ name ≠ ".." := by
  refine ⟨?_, ?_, ?_⟩
  · rintro rfl
    exact absurd h (by decide)
  · rintro rfl
    exact absurd h (by decide)
  · rintro rfl
    exact absurd h (by decide)

theorem IsFileName.ne {name : String} (h : IsFileName name) :
    name ≠ "" ∧ name ≠ "." ∧ name ≠ ".." :=
  ne_of_getLast? h.2

theorem IsFileName.relative {name : String} (h : IsFileName name) :
    Path.isAbsolute name = false ∧ Path.endsInSlash name = false := by
  constructor
  · exact decide_eq_false fun hhead => h.1 (List.mem_of_head? hhead)
  · exact decide_eq_false fun hlast => h.1 (List.mem_of_getLast? hlast)

theorem IsFileName.names_join {name : String} (h : IsFileName name) (base : String) :
    Path.names (Path.join base name) = Path.names base ++ [name] := by
  rw [Path.names_join base h.relative.1, Path.names_of_not_mem h.ne.1 h.1]

/-! ## Output paths -/

theorem not_mem_verb {template : ModuleTemplate} (h : template ∈ all) :
    '/' ∉ template.verb.toList := by
  have hall : ∀ template ∈ all, '/' ∉ template.verb.toList := by decide
  exact hall template h

/-- An output path is a file name after a relative path. -/
theorem outputPath_eq_join {template : ModuleTemplate} (h : template ∈ all)
    (hmodule : '/' ∉ module.toList) :
    ∃ base name : String, template.outputPath module = Path.join base name ∧ IsFileName name
      ∧ Path.isAbsolute base = false ∧ template.outputNames module = Path.names base ++ [name]
      ∧ ∀ part ∈ Path.names base, part ≠ "." ∧ part ≠ ".." := by
  have hpascal : '/' ∉ (pascalCase module).toList :=
    fun hmem => hmodule (mem_of_mem_pascalCase isSign_slash hmem)
  have hlower : '/' ∉ (Text.lowerCase module).toList :=
    fun hmem => hmodule (mem_of_mem_lowerCase isSign_slash hmem)
  have hverb : '/' ∉ (pascalCase template.verb).toList :=
    fun hmem => not_mem_verb h (mem_of_mem_pascalCase isSign_slash hmem)
  rw [outputPath, outputNames]
  cases template.category with
  | services =>
      have hdirectory : IsFileName (servicesDirectory module) :=
        IsFileName.append hpascal ⟨by decide, by decide⟩
      have hstem : '/' ∉ (pascalCase template.verb ++ pascalCase module).toList := by
        rw [String.toList_append, List.mem_append, not_or]
        exact ⟨hverb, hpascal⟩
      refine ⟨Path.join "src/services" (servicesDirectory module), _, rfl,
        IsFileName.append hstem ⟨by decide, by decide⟩, ?_, ?_, ?_⟩
      · rw [Path.isAbsolute_join _ hdirectory.relative.1]
        decide
      · rw [hdirectory.names_join]
        rfl
      · rw [hdirectory.names_join]
        intro part hpart
        rcases List.mem_append.mp hpart with hbase | hlast
        · have hall : ∀ part ∈ Path.names "src/services", part ≠ "." ∧ part ≠ ".." := by decide
          exact hall part hbase
        · exact List.mem_singleton.mp hlast ▸ hdirectory.ne.2
  | controllers =>
      exact ⟨"src/controllers", _, rfl, IsFileName.append hpascal ⟨by decide, by decide⟩,
        by decide, rfl, by decide⟩
  | routes =>
      exact ⟨"src/routes", _, rfl, IsFileName.append hlower ⟨by decide, by decide⟩,
        by decide, rfl, by decide⟩

theorem names_join_outputPath {template : ModuleTemplate} (h : template ∈ all)
    (hmodule : '/' ∉ module.toList) (root : String) :
    Path.names (Path.join root (template.outputPath module))
      = Path.names root ++ template.outputNames module := by
  obtain ⟨base, name, hpath, hname, hbase, hnames, -⟩ := outputPath_eq_join h hmodule
  have hrelative : Path.isAbsolute (template.outputPath module) = false := by
    rw [hpath, Path.isAbsolute_join _ hname.relative.1, hbase]
  rw [Path.names_join root hrelative, hpath, hname.names_join, hnames]

theorem isAbsolute_join_outputPath {template : ModuleTemplate} (h : template ∈ all)
    (hmodule : '/' ∉ module.toList) (root : String) :
    Path.isAbsolute (Path.join root (template.outputPath module)) = Path.isAbsolute root := by
  obtain ⟨base, name, hpath, hname, hbase, -, -⟩ := outputPath_eq_join h hmodule
  refine Path.isAbsolute_join root ?_
  rw [hpath, Path.isAbsolute_join _ hname.relative.1, hbase]

/-- An output path below a root does not end in a slash. -/
theorem endsInSlash_join_outputPath {template : ModuleTemplate} (h : template ∈ all)
    (hmodule : '/' ∉ module.toList) (root : String) :
    Path.endsInSlash (Path.join root (template.outputPath module)) = false := by
  obtain ⟨base, name, hpath, hname, hbase, -, -⟩ := outputPath_eq_join h hmodule
  have hrelative : Path.isAbsolute (Path.join base name) = false := by
    rw [Path.isAbsolute_join _ hname.relative.1, hbase]
  have hne : Path.join base name ≠ "" := by
    intro hempty
    have hnames := hname.names_join base
    rw [hempty] at hnames
    exact absurd hnames.symm (by
      rw [show Path.names "" = [] from rfl]
      exact List.append_ne_nil_of_right_ne_nil _ (List.cons_ne_nil _ _))
  rw [hpath, Path.endsInSlash_join root hne hrelative,
    Path.endsInSlash_join base hname.ne.1 hname.relative.1, hname.relative.2]

/-! ## Files apart -/

/-- No name on an output path is dots. -/
theorem outputNames_no_dots {template : ModuleTemplate} (h : template ∈ all)
    (hmodule : '/' ∉ module.toList) :
    ∀ name ∈ template.outputNames module, name ≠ "." ∧ name ≠ ".." := by
  obtain ⟨base, file, -, hfile, -, hnames, hdots⟩ := outputPath_eq_join h hmodule
  intro name hmem
  rw [hnames] at hmem
  rcases List.mem_append.mp hmem with hbase | hlast
  · exact hdots name hbase
  · exact List.mem_singleton.mp hlast ▸ hfile.ne.2

theorem getLast?_outputNames {template : ModuleTemplate} (h : template ∈ all)
    (hmodule : '/' ∉ module.toList) :
    ∃ name : String, (template.outputNames module).getLast? = some name
      ∧ name ≠ "." ∧ name ≠ ".." := by
  obtain ⟨base, file, -, hfile, -, hnames, -⟩ := outputPath_eq_join h hmodule
  exact ⟨file, by rw [hnames, List.getLast?_concat], hfile.ne.2⟩

/-- No file stands where another one needs a directory. -/
theorem outputNames_not_prefix (template template' : ModuleTemplate) (module : String)
    {more : List String} (hne : more ≠ []) :
    template.outputNames module ≠ template'.outputNames module ++ more := by
  obtain ⟨_, category, verb, _⟩ := template
  obtain ⟨_, category', verb', _⟩ := template'
  intro h
  cases category <;> cases category' <;> simp [outputNames, hne] at h

/-- The path to a file of one module does not go through a file of another, if the
    spellings of the two module names differ. -/
theorem outputNames_not_prefix_of_ne (template template' : ModuleTemplate) {module' : String}
    (hpascal : pascalCase module ≠ pascalCase module')
    (hlower : Text.lowerCase module ≠ Text.lowerCase module') :
    ¬ template.outputNames module <+: template'.outputNames module' := by
  obtain ⟨_, category, verb, _⟩ := template
  obtain ⟨_, category', verb', _⟩ := template'
  rintro ⟨more, hmore⟩
  cases category <;> cases category' <;> simp [outputNames, servicesDirectory] at hmore
  case services.services => exact hpascal hmore.1
  case controllers.controllers => exact hpascal hmore.1
  case routes.routes => exact hlower hmore.1

/-- No two templates make the same file. -/
theorem pairwise_outputNames (module : String) :
    all.Pairwise fun template template' =>
      template.outputNames module ≠ template'.outputNames module := by
  have hapart : all.Pairwise fun template template' =>
      template.category ≠ template'.category
        ∨ template.category = .services ∧ template'.category = .services
          ∧ pascalCase template.verb ≠ pascalCase template'.verb := by
    decide +kernel
  refine hapart.imp fun {template template'} h hnames => ?_
  obtain ⟨_, category, verb, _⟩ := template
  obtain ⟨_, category', verb', _⟩ := template'
  rcases h with hcategory | ⟨rfl, rfl, hverb⟩
  · cases category <;> cases category' <;> simp [outputNames] at hcategory hnames
  · rw [outputNames, outputNames] at hnames
    simp only [List.cons.injEq, true_and, and_true] at hnames
    -- the two file names differ in the verb alone
    refine hverb (String.toList_inj.mp ?_)
    have hlist := congrArg String.toList hnames
    simp only [String.toList_append, List.append_cancel_right_eq] at hlist
    exact hlist

end Stencil.ModuleTemplate
