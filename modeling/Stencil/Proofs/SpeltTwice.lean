import Mathlib.Tactic.TFAE
import Stencil.Proofs.Path
import Stencil.Proofs.Words
import Stencil.Template.Catalog

/-! # Pascal case, twice

    The Pascal-case spelling of a name is shown to the user, who may ask by it the next
    time.  It is then spelt again, and the second pass reads capitals where the first one
    read small letters.

    A capital has no capital of its own (`upperChar_of_mem_upperChar`), so what the first
    pass has raised stays.  But a capital may end in a combining mark: `ǰ` becomes `J` and a
    caron.  A mark is no letter, and a word starts after it, so the second pass raises a
    letter that stood within a word before (`Reopens`).  Nothing else makes a difference
    (`joinWords_joinWords_iff`), and the payoff is `pascalCase_twice_tfae`. -/

namespace Stencil

open Text

variable {c d : Char} {cs rest : List Char} {atStart : Bool}

/-! ## Capitals of capitals -/

/-- Whether no case mapping has a code point: it is its own capital. -/
def IsOwnCapital (code : Nat) : Prop :=
  (∀ entry ∈ upperExpansions, entry.1 ≠ code) ∧ ∀ run ∈ upperRuns, run.has code = false

instance (code : Nat) : Decidable (IsOwnCapital code) :=
  inferInstanceAs (Decidable (_ ∧ _))

theorem IsOwnCapital.upperChar_eq (h : IsOwnCapital c.toNat) : upperChar c = [c] := by
  have hlookup : upperExpansions.lookup c.toNat = none :=
    List.lookup_eq_none_iff.mpr fun entry hmem => bne_iff_ne.mpr (h.1 entry hmem).symm
  have hfind : upperRuns.find? (·.has c.toNat) = none :=
    List.find?_eq_none.mpr fun run hmem => Bool.eq_false_iff.mp (h.2 run hmem)
  rw [upperChar, hlookup, CaseRun.map, hfind]
  exact congrArg (fun c => [c]) (Char.ofNat_toNat c)

/-- A code point that is no character stands for NUL, which no mapping has either. -/
theorem IsOwnCapital.upperChar_ofNat {code : Nat} (h : IsOwnCapital code) :
    upperChar (Char.ofNat code) = [Char.ofNat code] := by
  rcases toNat_ofNat code with hcode | hzero
  · exact IsOwnCapital.upperChar_eq (hcode.symm ▸ h)
  · have hnul : IsOwnCapital 0 := by decide +kernel
    exact IsOwnCapital.upperChar_eq (hzero.symm ▸ hnul)

/-- Whether a run is of single code points or of every second one. -/
def byTwos (run : CaseRun) : Bool :=
  run.first == run.last || run.stride == 2

/-- Whether a run leads to code points that another run does not have: they lie before or after
    it, or between those of which it has every second one. -/
def leadsPast (run other : CaseRun) : Bool :=
  Nat.blt (run.target + (run.last - run.first)) other.first || Nat.blt other.last run.target
    || byTwos run && byTwos other && run.target % 2 != other.first % 2

theorem has_eq_false_of_leadsPast {run other : CaseRun} {code : Nat}
    (hpast : leadsPast run other = true) (hhas : run.has code = true) :
    other.has (run.target + (code - run.first)) = false := by
  rw [Bool.eq_false_iff]
  intro hother
  simp only [CaseRun.has, Bool.and_eq_true, decide_eq_true_eq, beq_iff_eq] at hhas hother
  simp only [leadsPast, byTwos, Bool.or_eq_true, Bool.and_eq_true, Nat.blt_eq, beq_iff_eq,
    bne_iff_ne] at hpast
  obtain ⟨⟨hfirst, hlast⟩, hstride⟩ := hhas
  obtain ⟨⟨hfirst', hlast'⟩, hstride'⟩ := hother
  rcases hpast with (hbefore | hafter) | ⟨⟨htwos, htwos'⟩, hparity⟩
  · omega
  · omega
  · -- both go by twos, from starts of different parity
    have heven : (code - run.first) % 2 = 0 := by
      rcases htwos with hone | htwo
      · omega
      · rwa [htwo] at hstride
    have heven' : (run.target + (code - run.first) - other.first) % 2 = 0 := by
      rcases htwos' with hone | htwo
      · omega
      · rwa [htwo] at hstride'
    omega

/-- No mapping has what a mapping leads to. -/
theorem upperChar_of_mem_upperChar (h : d ∈ upperChar c) : upperChar d = [d] := by
  have hexpansions : ∀ entry ∈ upperExpansions, ∀ code ∈ entry.2, IsOwnCapital code := by
    decide +kernel
  have hpast : (upperRuns.all fun run => upperRuns.all (leadsPast run)) = true := by
    decide +kernel
  have hpast' : (upperRuns.all fun run =>
      upperExpansions.all fun entry => leadsPast run ⟨entry.1, entry.1, 1, entry.1⟩) = true := by
    decide +kernel
  rcases mem_upperChar h with
    ⟨entry, hentry, code, hcode, rfl⟩ | ⟨run, hrun, hhas, rfl⟩ | ⟨rfl, hself⟩
  · exact (hexpansions entry hentry code hcode).upperChar_ofNat
  · refine IsOwnCapital.upperChar_ofNat ⟨fun entry hentry heq => ?_, fun other hother => ?_⟩
    · have hout := has_eq_false_of_leadsPast
        (List.all_eq_true.mp (List.all_eq_true.mp hpast' run hrun) entry hentry) hhas
      rw [← heq] at hout
      simp [CaseRun.has] at hout
    · exact has_eq_false_of_leadsPast
        (List.all_eq_true.mp (List.all_eq_true.mp hpast run hrun) other hother) hhas
  · exact hself

/-- A capital that differs from its character differs in the first place. -/
theorem upperChar_eq_or_cons (c : Char) :
    upperChar c = [c] ∨ ∃ d rest, upperChar c = d :: rest ∧ d ≠ c := by
  have hexpansions : ∀ entry ∈ upperExpansions,
      ∃ code ∈ entry.2.head?, Char.ofNat code ≠ Char.ofNat entry.1 := by decide +kernel
  rw [upperChar]
  cases hlookup : upperExpansions.lookup c.toNat with
  | some expansion =>
      obtain ⟨code, hhead, hne⟩ := hexpansions _ (mem_of_lookup hlookup)
      obtain ⟨codes, rfl⟩ := List.head?_eq_some_iff.mp hhead
      exact Or.inr ⟨_, _, rfl, fun heq => hne (heq.trans (Char.ofNat_toNat c).symm)⟩
  | none =>
      by_cases heq : Char.ofNat (CaseRun.map upperRuns c.toNat) = c
      · exact Or.inl (congrArg (fun c => [c]) heq)
      · exact Or.inr ⟨_, _, rfl, heq⟩

/-! ## Words that start anew -/

/-- Whether a word starts after some characters, if one does or does not before them. -/
def startsAfter (atStart : Bool) : List Char → Bool
  | [] => atStart
  | c :: rest => startsAfter (!isAlphanumeric c) rest

/-- Whether some characters start with a letter that is raised where a word starts. -/
def Rises (cs : List Char) : Prop :=
  ∃ d ∈ cs.head?, isAlphanumeric d = true ∧ upperChar d ≠ [d]

/-- Whether a word of a name starts with a character whose capital ends in a mark, and goes on
    with a letter that is raised where a word starts.  The capital raises that letter when it is
    read again. -/
inductive Reopens : Bool → List Char → Prop where
  | here {c : Char} {rest : List Char} :
      isAlphanumeric c = true → startsAfter false (upperChar c) = true → Rises rest →
      Reopens true (c :: rest)
  | later {atStart : Bool} {c : Char} {rest : List Char} :
      Reopens (!isAlphanumeric c) rest → Reopens atStart (c :: rest)

theorem reopens_cons_iff : Reopens atStart (c :: rest)
    ↔ (atStart = true ∧ isAlphanumeric c = true ∧ startsAfter false (upperChar c) = true
        ∧ Rises rest) ∨ Reopens (!isAlphanumeric c) rest := by
  constructor
  · intro h
    cases h with
    | here hc hmark hrises => exact Or.inl ⟨rfl, hc, hmark, hrises⟩
    | later h => exact Or.inr h
  · rintro (⟨rfl, hc, hmark, hrises⟩ | h)
    · exact .here hc hmark hrises
    · exact .later h

theorem rises_cons_iff : Rises (c :: rest) ↔ isAlphanumeric c = true ∧ upperChar c ≠ [c] := by
  simp [Rises]

/-! ## Joined words, joined again -/

/-- Letters and digits separate no words. -/
theorem not_isSeparator_of_isAlphanumeric (h : isAlphanumeric c = true) :
    isSeparator c = false := by
  have hapart : ∀ range ∈ alphanumericRanges, ∀ other ∈ separatorRanges,
      range.2 < other.1 ∨ other.2 < range.1 := by decide +kernel
  rw [isAlphanumeric, Ranges.has, List.any_eq_true] at h
  obtain ⟨range, hmem, hin⟩ := h
  rw [isSeparator_eq_has, Ranges.has, List.any_eq_false]
  intro other hother hin'
  simp only [Bool.and_eq_true, decide_eq_true_eq] at hin hin'
  have hout := hapart range hmem other hother
  omega

/-- Characters that are their own capitals are joined as they are. -/
theorem joinWords_append_of_capitals (h : ∀ d ∈ cs, isSeparator d = false ∧ upperChar d = [d])
    (atStart : Bool) (rest : List Char) :
    joinWords atStart (cs ++ rest) = cs ++ joinWords (startsAfter atStart cs) rest := by
  induction cs generalizing atStart with
  | nil => rfl
  | cons c cs ih =>
      obtain ⟨hseparator, hcapital⟩ := h c (List.mem_cons_self ..)
      have hrest := ih fun d hd => h d (List.mem_cons_of_mem _ hd)
      rw [List.cons_append, joinWords_word hseparator, startsAfter]
      by_cases halphanumeric : isAlphanumeric c = true
      · rw [if_pos halphanumeric, hrest, halphanumeric, hcapital, ite_self]
        rfl
      · rw [if_neg halphanumeric, hrest, Bool.eq_false_iff.mpr halphanumeric]
        rfl

/-- A capital of a letter or digit is joined as it is. -/
theorem joinWords_upperChar_append (hc : isAlphanumeric c = true) (atStart : Bool)
    (rest : List Char) :
    joinWords atStart (upperChar c ++ rest)
      = upperChar c ++ joinWords (startsAfter false (upperChar c)) rest := by
  have hcapitals : ∀ d ∈ upperChar c, isSeparator d = false ∧ upperChar d = [d] := fun d hd =>
    ⟨not_isSeparator_of_mem_upperChar (not_isSeparator_of_isAlphanumeric hc) hd,
      upperChar_of_mem_upperChar hd⟩
  have hstart : startsAfter atStart (upperChar c) = startsAfter false (upperChar c) := by
    rcases upperChar_eq_or_cons c with hself | ⟨d, capitals, hcons, -⟩
    · rw [hself]
      rfl
    · rw [hcons]
      rfl
  rw [joinWords_append_of_capitals hcapitals, hstart]

/-- A second pass, whatever it takes the first character for, changes what the first one left
    within a word and now stands at the start of one; and nothing else. -/
theorem joinWords_joinWords_iff (first second : Bool) (cs : List Char) :
    joinWords second (joinWords first cs) = joinWords first cs
      ↔ ¬ (first = false ∧ second = true ∧ Rises cs) ∧ ¬ Reopens first cs := by
  induction cs generalizing first second with
  | nil =>
      have hrises : ¬ Rises [] := fun ⟨_, hmem, _⟩ => nomatch hmem
      have hreopens : ¬ Reopens first [] := fun h => nomatch h
      exact iff_of_true rfl ⟨fun h => hrises h.2.2, hreopens⟩
  | cons c rest ih =>
      rw [reopens_cons_iff, rises_cons_iff]
      by_cases halphanumeric : isAlphanumeric c = true
      · have hseparator := not_isSeparator_of_isAlphanumeric halphanumeric
        rw [joinWords_word hseparator, if_pos halphanumeric, halphanumeric]
        cases first with
        | true =>
            -- the capital stays, and the rest is read from where it ends
            rw [if_pos rfl, joinWords_upperChar_append halphanumeric, List.append_cancel_left_eq,
              ih]
            simp
        | false =>
            rw [if_neg Bool.false_ne_true, List.singleton_append, joinWords_word hseparator,
              if_pos halphanumeric]
            cases second with
            | true =>
                rcases upperChar_eq_or_cons c with hself | ⟨d, capitals, hcons, hne⟩
                · simp [hself, ih]
                · simp [hcons, hne]
            | false => simp [ih]
      · have hnot : isAlphanumeric c = false := Bool.eq_false_iff.mpr halphanumeric
        rw [hnot]
        cases hseparator : isSeparator c with
        | true =>
            rw [joinWords_separator hseparator, ih]
            simp
        | false =>
            rw [joinWords_word hseparator, if_neg halphanumeric, joinWords_word hseparator,
              if_neg halphanumeric, List.cons.injEq, ih]
            simp

/-! ## Places of files -/

/-- **Pascal case, twice.**  The Pascal-case spelling of a name is its own Pascal-case spelling
    just if no word of the name is opened anew; and just then does a user who asks by it get the
    same directory of services, the same services and the same controller as by the name. -/
theorem pascalCase_twice_tfae (name : String) :
    [¬ Reopens true name.toList,
      pascalCase (pascalCase name) = pascalCase name,
      servicesDirectory (pascalCase name) = servicesDirectory name,
      ∀ template ∈ ModuleTemplate.all, template.category ≠ .routes →
        template.outputPath (pascalCase name) = template.outputPath name].TFAE := by
  tfae_have 1 ↔ 2 := by
    rw [pascalCase, pascalCase, String.toList_ofList, String.ofList_inj, joinWords_joinWords_iff]
    simp
  tfae_have 2 ↔ 3 := by
    rw [servicesDirectory, servicesDirectory, String.append_left_inj]
  tfae_have 2 → 4 := by
    intro hsame template _ hcategory
    rw [ModuleTemplate.outputPath, ModuleTemplate.outputPath]
    cases hcases : template.category with
    | services => simp only [servicesDirectory, hsame]
    | controllers => simp only [hsame]
    | routes => exact absurd hcases hcategory
  tfae_have 4 → 2 := by
    intro hall
    have hmem : (⟨"controller.ts.tpl", .controllers, "controller", Template.controller⟩
        : ModuleTemplate) ∈ ModuleTemplate.all := by simp [ModuleTemplate.all]
    have hpath := Path.join_inj (by decide) (hall _ hmem (by decide))
    exact String.append_left_inj _ |>.mp hpath
  tfae_finish

/-- The capital of `ß` is two letters, and opens no word anew. -/
theorem pascalCase_twice_tfae_eszett :
    pascalCase "\u00DFlog-post" = "SSlogPost" ∧ ¬ Reopens true "\u00DFlog-post".toList
      ∧ servicesDirectory "SSlogPost" = servicesDirectory "\u00DFlog-post"
      ∧ ∀ template ∈ ModuleTemplate.all, template.category ≠ .routes →
        template.outputPath "SSlogPost" = template.outputPath "\u00DFlog-post" := by
  have hfirst : pascalCase "\u00DFlog-post" = "SSlogPost" := by decide +kernel
  have hsecond : pascalCase "SSlogPost" = "SSlogPost" := by decide +kernel
  have hall := pascalCase_twice_tfae "\u00DFlog-post"
  rw [hfirst] at hall
  exact ⟨hfirst, (hall.out 0 1).mpr hsecond, (hall.out 1 2).mp hsecond, (hall.out 1 3).mp hsecond⟩

/-- The capital of `ǰ` is `J` with a caron, and the letter after the caron is raised by the
    second pass: the Pascal-case spelling leads to other services and another controller. -/
theorem pascalCase_reopens_caron :
    pascalCase "\u01F0a" = "J\u030Ca" ∧ pascalCase "J\u030Ca" = "J\u030CA"
      ∧ pascalCase (pascalCase "\u01F0a") ≠ pascalCase "\u01F0a"
      ∧ servicesDirectory (pascalCase "\u01F0a") ≠ servicesDirectory "\u01F0a"
      ∧ ∀ template ∈ ModuleTemplate.all, template.category ≠ .routes →
        template.outputPath (pascalCase "\u01F0a") ≠ template.outputPath "\u01F0a" := by
  have hfirst : pascalCase "\u01F0a" = "J\u030Ca" := by decide +kernel
  have hsecond : pascalCase "J\u030Ca" = "J\u030CA" := by decide +kernel
  refine ⟨hfirst, hsecond, ?_, ?_, ?_⟩
  · rw [hfirst, hsecond]
    decide
  · rw [servicesDirectory, servicesDirectory, hfirst, hsecond]
    decide
  · rw [hfirst]
    decide +kernel

end Stencil
