import Stencil.Proofs.Template.Outputs

/-! # Last names

    A module name may have slashes, and then the paths of its files have more names
    than usual, may lead up, and may even be absolute.  What stays is their end: the
    last name on the path of a file ends as its category has it
    (`getLast?_names_outputPath`).

    So the paths of the files of a module differ for every module name
    (`pairwise_steps_outputPath`), though they may lead to one place. -/

namespace Stencil

/-- The names on a path, single dots left out. -/
def Path.steps (path : String) : List String :=
  (Path.names path).filter (· ≠ ".")

/-- What the names of the files of a category end with. -/
def Category.ending : Category → String
  | .services => "Service.ts"
  | .controllers => "Controller.ts"
  | .routes => "Routes.ts"

namespace ModuleTemplate

variable {module : String}

/-! ## Ends of paths -/

/-- Each path ends with the ending of its category. -/
theorem outputPath_eq_join_ending (template : ModuleTemplate) (module : String) :
    ∃ base stem : String,
      template.outputPath module = Path.join base (stem ++ template.category.ending) := by
  rw [outputPath]
  cases template.category <;> exact ⟨_, _, rfl⟩

/-- So does the last name on it. -/
theorem getLast?_names_outputPath (template : ModuleTemplate) (module : String) :
    ∃ front : List Char, (Path.names (template.outputPath module)).getLast?
      = some (String.ofList (front ++ template.category.ending.toList)) := by
  obtain ⟨base, stem, hpath⟩ := outputPath_eq_join_ending template module
  have hne : template.category.ending.toList ≠ [] := by cases template.category <;> decide
  have hslash : '/' ∉ template.category.ending.toList := by cases template.category <;> decide
  obtain ⟨parts, word, hparts⟩ := Path.nameParts_append_ending stem.toList
  refine ⟨word, ?_⟩
  rw [hpath]
  refine Path.getLast?_names_join base ?_
  rw [Path.names_eq_nameParts, String.toList_append, hparts _ hne hslash, List.getLast?_concat]

/-- The last name on the path of a file is no dots, wherever the path is seen from. -/
theorem getLast?_names_join_outputPath (template : ModuleTemplate) (root module : String) :
    ∃ name : String, (Path.names (Path.join root (template.outputPath module))).getLast? = some name
      ∧ (name ≠ "." ∧ name ≠ "..") ∧ name.toList.getLast? = some 's' := by
  obtain ⟨front, hlast⟩ := getLast?_names_outputPath template module
  have hend : (String.ofList (front ++ template.category.ending.toList)).toList.getLast?
      = some 's' := by
    rw [String.toList_ofList, List.getLast?_append]
    cases template.category <;> rfl
  exact ⟨_, Path.getLast?_names_join root hlast, (ne_of_getLast? hend).2, hend⟩

/-! ## Paths apart -/

/-- What ends with two endings ends with that of one category. -/
theorem eq_of_ending {front front' : List Char} {category category' : Category}
    (h : front ++ category.ending.toList = front' ++ category'.ending.toList) :
    category = category' := by
  have hreverse := congrArg List.reverse h
  rw [List.reverse_append, List.reverse_append] at hreverse
  cases category <;> cases category' <;> simp [Category.ending] at hreverse ⊢

theorem getLast?_steps {path last : String} (h : (Path.names path).getLast? = some last)
    (hdot : last ≠ ".") : (Path.steps path).getLast? = some last := by
  obtain ⟨front, hnames⟩ := List.getLast?_eq_some_iff.mp h
  rw [Path.steps, hnames, List.filter_append, List.filter_cons_of_pos (by simpa using hdot),
    List.filter_nil, List.getLast?_concat]

/-- The path of a service goes to the directory of the services, and on with a name that
    begins with its verb. -/
theorem steps_outputPath_service {template : ModuleTemplate}
    (hcategory : template.category = .services)
    (hverb : '/' ∉ (pascalCase template.verb).toList ∧ 2 ≤ (pascalCase template.verb).length)
    (module : String) : ∃ rest : List String,
      Path.steps (template.outputPath module)
        = Path.steps (Path.join "src/services" (servicesDirectory module))
          ++ String.ofList ((pascalCase template.verb).toList
            ++ (pascalCase module ++ "Service.ts").toList.takeWhile (· ≠ '/')) :: rest := by
  obtain ⟨hslash, hlong⟩ := hverb
  have hne : pascalCase template.verb ≠ "" := by
    intro hempty
    rw [hempty] at hlong
    exact absurd hlong (by decide)
  have hne' : (pascalCase template.verb).toList ≠ [] :=
    fun hnil => hne (String.toList_eq_nil_iff.mp hnil)
  have hrelative :
      Path.isAbsolute (pascalCase template.verb ++ pascalCase module ++ "Service.ts") = false := by
    rw [String.append_assoc]
    exact Path.isAbsolute_append_of_not_mem hne hslash _
  obtain ⟨rest, hrest⟩ :=
    Path.nameParts_append_of_not_mem (pascalCase module ++ "Service.ts").toList
  refine ⟨rest.filter (· ≠ "."), ?_⟩
  rw [Path.steps, outputPath, hcategory]
  simp only
  rw [Path.names_join _ hrelative, List.filter_append, ← Path.steps, Path.names_eq_nameParts,
    String.append_assoc, String.toList_append, hrest _ hne' hslash, List.filter_cons_of_pos]
  rw [decide_eq_true_eq]
  intro hdot
  have hlength := congrArg String.length hdot
  rw [← String.length_toList, String.toList_ofList, List.length_append, String.length_toList]
    at hlength
  change _ = 1 at hlength
  omega

/-- No two templates make files of one path. -/
theorem pairwise_steps_outputPath (module : String) : all.Pairwise fun template template' =>
    Path.steps (template.outputPath module) ≠ Path.steps (template'.outputPath module) := by
  have hapart : all.Pairwise fun template template' =>
      template.category ≠ template'.category
        ∨ template.category = .services ∧ template'.category = .services
          ∧ pascalCase template.verb ≠ pascalCase template'.verb := by
    decide +kernel
  have hverbs : ∀ template ∈ all, '/' ∉ (pascalCase template.verb).toList
      ∧ 2 ≤ (pascalCase template.verb).length := by
    decide +kernel
  refine hapart.imp_of_mem fun {template template'} hmem hmem' h hsteps => ?_
  rcases h with hcategory | ⟨hservice, hservice', hverb⟩
  · -- the endings of two categories differ
    have hlast : ∀ template : ModuleTemplate, ∃ front : List Char,
        (Path.steps (template.outputPath module)).getLast?
          = some (String.ofList (front ++ template.category.ending.toList)) := by
      intro template
      obtain ⟨front, hnames⟩ := getLast?_names_outputPath template module
      obtain ⟨name, hname, ⟨hdot, -⟩, -⟩ := getLast?_names_join_outputPath template "" module
      rw [Path.getLast?_names_join "" hnames] at hname
      exact ⟨front, getLast?_steps hnames (Option.some.inj hname ▸ hdot)⟩
    obtain ⟨front, hfront⟩ := hlast template
    obtain ⟨front', hfront'⟩ := hlast template'
    rw [hsteps, hfront', Option.some.injEq, String.ofList_inj] at hfront
    exact hcategory (eq_of_ending hfront).symm
  · -- two services differ in the verb alone
    obtain ⟨rest, hrest⟩ := steps_outputPath_service hservice (hverbs _ hmem) module
    obtain ⟨rest', hrest'⟩ := steps_outputPath_service hservice' (hverbs _ hmem') module
    rw [hrest, hrest', List.append_cancel_left_eq, List.cons.injEq, String.ofList_inj,
      List.append_cancel_right_eq, String.toList_inj] at hsteps
    exact hverb hsteps.1

end ModuleTemplate

end Stencil
