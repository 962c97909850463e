import Stencil.Proofs.Template.LastNames

/-! # Bounds of paths

    Names lead down, and two dots lead up.  They stay within a directory if they never
    lead up more often than down (`Path.StaysWithin`).

    A spelling of a module name stays near if it is relative and leads up by one
    directory at most (`StaysNear`); all names without a slash have such spellings
    (`spellingsNear_of_not_mem`).
    The files of a module go to directories that are one below the sources, so with
    such spellings their paths stay within the sources (`outputPath_within`). -/

namespace Stencil

/-! ## Names within a directory -/

namespace Path

/-- The level below a directory that a name leads to from a level; none above it. -/
def descend (level : Nat) (name : String) : Option Nat :=
  if name = "." then some level
  else if name = ".." then if level = 0 then none else some (level - 1)
  else some (level + 1)

/-- Whether names, from some level below a directory, never lead out of it. -/
def StaysWithin (level : Nat) (names : List String) : Prop :=
  (names.foldlM descend level).isSome = true

instance (level : Nat) (names : List String) : Decidable (StaysWithin level names) :=
  inferInstanceAs (Decidable (_ = true))

variable {n m k : Nat} {name : String} {names names' : List String}

theorem staysWithin_nil (n : Nat) : StaysWithin n [] := rfl

theorem staysWithin_cons :
    StaysWithin n (name :: names) ↔ ∃ m : Nat, descend n name = some m ∧ StaysWithin m names := by
  rw [StaysWithin, List.foldlM_cons]
  cases descend n name with
  | none => simp
  | some m => simp [StaysWithin]

theorem staysWithin_cons_of_no_dots (hdots : name ≠ "." ∧ name ≠ "..") :
    StaysWithin n (name :: names) ↔ StaysWithin (n + 1) names := by
  rw [staysWithin_cons, descend, if_neg hdots.1, if_neg hdots.2]
  simp

/-- A name leads down by one level at most. -/
theorem le_of_descend (h : descend n name = some m) : m ≤ n + 1 := by
  rw [descend] at h
  split at h
  · cases h
    omega
  split at h
  · split at h
    · cases h
    · cases h
      omega
  · cases h
    omega

/-- From further below, a name leads further below. -/
theorem descend_mono (h : descend n name = some m) (hle : n ≤ k) :
    ∃ m' : Nat, descend k name = some m' ∧ m ≤ m' := by
  rw [descend] at h ⊢
  split at h
  · cases h
    exact ⟨k, by rw [if_pos ‹_›], hle⟩
  split at h
  · rw [if_neg ‹_›, if_pos ‹_›]
    split at h
    · cases h
    · cases h
      exact ⟨k - 1, by rw [if_neg (by omega)], by omega⟩
  · cases h
    exact ⟨k + 1, by rw [if_neg ‹_›, if_neg ‹_›], by omega⟩

theorem StaysWithin.mono (h : StaysWithin n names) (hle : n ≤ k) : StaysWithin k names := by
  induction names generalizing n k with
  | nil => exact staysWithin_nil k
  | cons name names ih =>
      obtain ⟨m, hname, hrest⟩ := staysWithin_cons.mp h
      obtain ⟨m', hname', hle'⟩ := descend_mono hname hle
      exact staysWithin_cons.mpr ⟨m', hname', ih hrest hle'⟩

/-- Names that stay within may be followed by others. -/
theorem StaysWithin.append (h : StaysWithin n names) (h' : StaysWithin 0 names') :
    StaysWithin n (names ++ names') := by
  induction names generalizing n with
  | nil => exact h'.mono (Nat.zero_le n)
  | cons name names ih =>
      obtain ⟨m, hname, hrest⟩ := staysWithin_cons.mp h
      exact staysWithin_cons.mpr ⟨m, hname, ih hrest⟩

/-- The first names stay within if all do. -/
theorem StaysWithin.front (h : StaysWithin n (names ++ names')) : StaysWithin n names := by
  induction names generalizing n with
  | nil => exact staysWithin_nil n
  | cons name names ih =>
      obtain ⟨m, hname, hrest⟩ := staysWithin_cons.mp h
      exact staysWithin_cons.mpr ⟨m, hname, ih hrest⟩

/-- Behind a first name others stay within as if it led down. -/
theorem StaysWithin.tail (h : StaysWithin n (name :: names)) : StaysWithin (n + 1) names := by
  obtain ⟨m, hname, hrest⟩ := staysWithin_cons.mp h
  exact hrest.mono (le_of_descend hname)

end Path

/-! ## Spellings that stay near -/

open Stencil.Path (StaysWithin staysWithin_nil staysWithin_cons_of_no_dots)
open ModuleTemplate (IsFileName)

/-- Whether a spelling, as the name of a file, leads no more than one directory up. -/
def StaysNear (spelling : String) : Prop :=
  Path.isAbsolute spelling = false ∧ StaysWithin 1 (Path.names (spelling ++ ".ts"))

instance (spelling : String) : Decidable (StaysNear spelling) :=
  inferInstanceAs (Decidable (_ ∧ _))

variable {spelling back : String}

theorem isAbsolute_append (h : Path.isAbsolute spelling = false) (hback : IsFileName back) :
    Path.isAbsolute (spelling ++ back) = false := by
  rw [Path.isAbsolute, decide_eq_false_iff_not, String.toList_append]
  cases hspelling : spelling.toList with
  | nil => exact fun hhead => hback.1 (List.mem_of_head? hhead)
  | cons c cs =>
      rw [Path.isAbsolute, decide_eq_false_iff_not, hspelling] at h
      exact h

/-- What ends in a file name has all its names but the last from what stands before. -/
theorem exists_names_append (spelling : String) : ∃ parts : List String,
    ∀ back : String, IsFileName back → ∃ name : String,
      Path.names (spelling ++ back) = parts ++ [name] ∧ name ≠ "." ∧ name ≠ ".." := by
  obtain ⟨parts, word, hparts⟩ := Path.nameParts_append_ending spelling.toList
  refine ⟨parts, fun back hback => ⟨String.ofList (word ++ back.toList), ?_, ?_⟩⟩
  · have hne : back.toList ≠ [] := fun hnil => hback.ne.1 (String.toList_eq_nil_iff.mp hnil)
    rw [Path.names_eq_nameParts, String.toList_append, hparts _ hne hback.1]
  · refine (ModuleTemplate.ne_of_getLast? ?_).2
    rw [String.toList_ofList, List.getLast?_append, hback.2]
    rfl

/-- A spelling that stays near does so with any ending. -/
theorem StaysNear.names_append (h : StaysNear spelling) (hback : IsFileName back) :
    ∃ (parts : List String) (name : String), Path.names (spelling ++ back) = parts ++ [name]
      ∧ (name ≠ "." ∧ name ≠ "..") ∧ StaysWithin 1 parts := by
  obtain ⟨parts, hparts⟩ := exists_names_append spelling
  obtain ⟨name, hnames, hdots⟩ := hparts back hback
  obtain ⟨name', hnames', -⟩ := hparts ".ts" ⟨by decide, by decide⟩
  have hwithin := h.2
  rw [hnames'] at hwithin
  exact ⟨parts, name, hnames, hdots, hwithin.front⟩

theorem StaysNear.staysWithin (h : StaysNear spelling) (hback : IsFileName back) :
    StaysWithin 1 (Path.names (spelling ++ back)) := by
  obtain ⟨parts, name, hnames, hdots, hwithin⟩ := h.names_append hback
  rw [hnames]
  exact hwithin.append ((staysWithin_cons_of_no_dots hdots).mpr (staysWithin_nil _))

/-- So it does with a verb before it: the verb makes a name of the first one, which then
    leads down. -/
theorem StaysNear.staysWithin_verb (h : StaysNear spelling) (hback : IsFileName back)
    {verb : String} (hverb : '/' ∉ verb.toList ∧ 3 ≤ verb.length) :
    StaysWithin 1 (Path.names (verb ++ spelling ++ back)) := by
  have hwithin := h.staysWithin hback
  have hrelative := isAbsolute_append h.1 hback
  have hne : (spelling ++ back).toList ≠ [] := by
    rw [String.toList_append]
    exact List.append_ne_nil_of_right_ne_nil _
      fun hnil => hback.ne.1 (String.toList_eq_nil_iff.mp hnil)
  obtain ⟨c, cs, htext⟩ := List.exists_cons_of_ne_nil hne
  obtain ⟨rest, hrest⟩ := Path.nameParts_append_of_not_mem cs
  rw [Path.isAbsolute, decide_eq_false_iff_not, htext] at hrelative
  have hc : c ≠ '/' := fun hslash => hrelative (congrArg some hslash)
  have hfirst : '/' ∉ [c] := fun hmem => hc (List.mem_singleton.mp hmem).symm
  have hlater : '/' ∉ verb.toList ++ [c] := by
    rw [List.mem_append, not_or]
    exact ⟨hverb.1, hfirst⟩
  have hnames := hrest [c] (List.cons_ne_nil _ _) hfirst
  have hnames' := hrest _ (List.append_ne_nil_of_right_ne_nil _ (List.cons_ne_nil _ _)) hlater
  have htext' : (verb ++ spelling ++ back).toList = verb.toList ++ [c] ++ cs := by
    rw [String.append_assoc, String.toList_append, htext, List.append_assoc]
    rfl
  rw [Path.names_eq_nameParts, htext, ← List.singleton_append, hnames] at hwithin
  rw [Path.names_eq_nameParts, htext', hnames']
  -- the first name is longer than dots
  have hlong := hverb.2
  rw [← String.length_toList] at hlong
  refine (staysWithin_cons_of_no_dots ⟨?_, ?_⟩).mpr hwithin.tail
  · intro hdot
    have hlength := congrArg (fun name : String => name.toList.length) hdot
    simp only [String.toList_ofList, List.length_append] at hlength
    change _ = 1 at hlength
    omega
  · intro hup
    have hlength := congrArg (fun name : String => name.toList.length) hup
    simp only [String.toList_ofList, List.length_append] at hlength
    change _ = 2 at hlength
    omega

/-- A spelling without a slash stays near. -/
theorem staysNear_of_not_mem (h : '/' ∉ spelling.toList) : StaysNear spelling := by
  have hname : IsFileName (spelling ++ ".ts") := IsFileName.append h ⟨by decide, by decide⟩
  constructor
  · exact decide_eq_false fun hhead => h (List.mem_of_head? hhead)
  · rw [Path.names_of_not_mem hname.ne.1 hname.1]
    exact (staysWithin_cons_of_no_dots hname.ne.2).mpr (staysWithin_nil _)

/-- Whether the spellings of a module name that its paths have stay near. -/
def SpellingsNear (module : String) : Prop :=
  StaysNear (pascalCase module) ∧ StaysNear (Text.lowerCase module)

instance (module : String) : Decidable (SpellingsNear module) :=
  inferInstanceAs (Decidable (_ ∧ _))

/-- The spellings of a module name without a slash do. -/
theorem spellingsNear_of_not_mem {module : String} (h : '/' ∉ module.toList) :
    SpellingsNear module :=
  ⟨staysNear_of_not_mem fun hmem => h (mem_of_mem_pascalCase isSign_slash hmem),
    staysNear_of_not_mem fun hmem => h (mem_of_mem_lowerCase isSign_slash hmem)⟩

/-! ## Output paths -/

/-- Whether a path is relative, goes to the sources and never leads out of them. -/
def WithinSources (path : String) : Prop :=
  Path.isAbsolute path = false
    ∧ ∃ names : List String, Path.names path = "src" :: names ∧ StaysWithin 0 names

namespace ModuleTemplate

/-- If the spellings of a module name stay near, the path of each file of the module stays
    within the sources. -/
theorem outputPath_within {template : ModuleTemplate} (h : template ∈ all) {module : String}
    (hnear : SpellingsNear module) : WithinSources (template.outputPath module) := by
  obtain ⟨hpascal, hlower⟩ := hnear
  have hverbs : ∀ template ∈ all, '/' ∉ (pascalCase template.verb).toList
      ∧ 3 ≤ (pascalCase template.verb).length := by
    decide +kernel
  have hverb := hverbs template h
  have hbase : Path.names "src/services" = ["src", "services"]
      ∧ Path.names "src/controllers" = ["src", "controllers"]
      ∧ Path.names "src/routes" = ["src", "routes"] := by
    decide +kernel
  have hdown : ∀ directory ∈ ["services", "controllers", "routes"],
      directory ≠ "." ∧ directory ≠ ".." := by
    decide
  rw [outputPath, WithinSources]
  cases template.category with
  | services =>
      have hdirectory : IsFileName "Services" := ⟨by decide, by decide⟩
      have hservice : IsFileName "Service.ts" := ⟨by decide, by decide⟩
      obtain ⟨parts, name, hnames, hdots, hwithin⟩ := hpascal.names_append hdirectory
      have hinner := hpascal.staysWithin_verb hservice hverb
      have hrelative := isAbsolute_append hpascal.1 hdirectory
      have hrelative' : Path.isAbsolute
          (pascalCase template.verb ++ pascalCase module ++ "Service.ts") = false := by
        rw [String.append_assoc]
        exact Path.isAbsolute_append_of_not_mem (fun hempty => absurd hverb.2
          (by rw [hempty]; decide)) hverb.1 _
      simp only
      rw [Path.isAbsolute_join _ hrelative', Path.names_join _ hrelative', servicesDirectory,
        Path.isAbsolute_join _ hrelative, Path.names_join _ hrelative, hbase.1, hnames]
      refine ⟨by decide, "services" :: (parts ++ name
        :: Path.names (pascalCase template.verb ++ pascalCase module ++ "Service.ts")), ?_, ?_⟩
      · rw [List.append_assoc, List.append_assoc, List.singleton_append]
        rfl
      · refine (staysWithin_cons_of_no_dots (hdown _ (by decide))).mpr (hwithin.append ?_)
        exact (staysWithin_cons_of_no_dots hdots).mpr hinner
  | controllers =>
      have hcontroller : IsFileName "Controller.ts" := ⟨by decide, by decide⟩
      have hrelative := isAbsolute_append hpascal.1 hcontroller
      simp only
      rw [Path.isAbsolute_join _ hrelative, Path.names_join _ hrelative, hbase.2.1]
      exact ⟨by decide, "controllers" :: Path.names (pascalCase module ++ "Controller.ts"),
        by simp only [List.cons_append, List.nil_append],
        (staysWithin_cons_of_no_dots (hdown _ (by decide))).mpr
          (hpascal.staysWithin hcontroller)⟩
  | routes =>
      have hroutes : IsFileName "Routes.ts" := ⟨by decide, by decide⟩
      have hrelative := isAbsolute_append hlower.1 hroutes
      simp only
      rw [Path.isAbsolute_join _ hrelative, Path.names_join _ hrelative, hbase.2.2]
      exact ⟨by decide, "routes" :: Path.names (Text.lowerCase module ++ "Routes.ts"),
        by simp only [List.cons_append, List.nil_append],
        (staysWithin_cons_of_no_dots (hdown _ (by decide))).mpr (hlower.staysWithin hroutes)⟩

end ModuleTemplate

end Stencil
