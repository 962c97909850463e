import Stencil.Proofs.Ordered
import Stencil.Spelling

/-! # Spellings bring in no signs

    Case mappings turn letters into letters.  A sign (a character below the
    capitals in ASCII, NUL aside) stands in a spelling of a name only if it stands
    in the name, so a name without a slash has no spelling with one. -/

namespace Stencil

open Text

/-- The characters below the capital letters, NUL aside. -/
def IsSign (c : Char) : Prop := 0 < c.toNat ∧ c.toNat < 65

theorem isSign_slash : IsSign '/' := by
  constructor <;> decide

/-! ## Case mappings -/

theorem toNat_ofNat (code : Nat) :
    (Char.ofNat code).toNat = code ∨ (Char.ofNat code).toNat = 0 := by
  by_cases hvalid : code.isValidChar
  · exact Or.inl (by rw [Char.ofNat, dif_pos hvalid]; rfl)
  · exact Or.inr (by rw [Char.ofNat, dif_neg hvalid]; rfl)

theorem IsSign.eq_of_ofNat {code : Nat} (h : IsSign (Char.ofNat code)) :
    (Char.ofNat code).toNat = code := by
  rcases toNat_ofNat code with heq | hzero
  · exact heq
  · have hpos := h.1
    omega

/-- Runs that lead to letters map nothing else to a sign. -/
theorem map_eq_self_of_isSign {runs : List CaseRun} (hruns : ∀ run ∈ runs, 65 ≤ run.target)
    {code : Nat} (h : IsSign (Char.ofNat (CaseRun.map runs code))) :
    CaseRun.map runs code = code := by
  have hcode := h.eq_of_ofNat
  have hlow := h.2
  rw [hcode] at hlow
  rw [CaseRun.map] at hlow ⊢
  cases hfind : runs.find? (·.has code) with
  | none => rfl
  | some run =>
      simp only [hfind] at hlow
      have htarget := hruns run (List.mem_of_find?_eq_some hfind)
      omega

/-- What stands in the capital of a character: one of those it expands to, the one that its run
    leads to, or the character itself, which is its own capital then. -/
theorem mem_upperChar {c d : Char} (h : d ∈ upperChar c) :
    (∃ entry ∈ upperExpansions, ∃ code ∈ entry.2, d = Char.ofNat code)
      ∨ (∃ run ∈ upperRuns, run.has c.toNat = true
        ∧ d = Char.ofNat (run.target + (c.toNat - run.first)))
      ∨ d = c ∧ upperChar c = [c] := by
  rw [upperChar] at h ⊢
  cases hlookup : upperExpansions.lookup c.toNat with
  | some expansion =>
      rw [hlookup] at h
      obtain ⟨code, hmem, rfl⟩ := List.mem_map.mp h
      exact Or.inl ⟨_, mem_of_lookup hlookup, code, hmem, rfl⟩
  | none =>
      rw [hlookup, CaseRun.map] at h
      cases hfind : upperRuns.find? (·.has c.toNat) with
      | some run =>
          rw [hfind] at h
          exact Or.inr (Or.inl ⟨run, List.mem_of_find?_eq_some hfind,
            List.find?_some (p := fun run => CaseRun.has run c.toNat) hfind,
            List.mem_singleton.mp h⟩)
      | none =>
          have hself : Char.ofNat (CaseRun.map upperRuns c.toNat) = c := by
            rw [CaseRun.map, hfind]
            exact Char.ofNat_toNat c
          rw [hfind] at h
          exact Or.inr (Or.inr ⟨(List.mem_singleton.mp h).trans (Char.ofNat_toNat c),
            congrArg (fun c => [c]) hself⟩)

/-- A sign in the capital of a character is that character. -/
theorem eq_of_mem_upperChar {c sign : Char} (hsign : IsSign sign) (h : sign ∈ upperChar c) :
    sign = c := by
  have hexpansions : ∀ entry ∈ upperExpansions, ∀ code ∈ entry.2, 65 ≤ code := by
    decide +kernel
  have hruns : ∀ run ∈ upperRuns, 65 ≤ run.target := by decide +kernel
  rcases mem_upperChar h with ⟨entry, hentry, code, hmem, rfl⟩ | ⟨run, hmem, -, rfl⟩ | ⟨heq, -⟩
  · have hhigh := hexpansions entry hentry code hmem
    have hcode := hsign.eq_of_ofNat
    have hlow := hsign.2
    omega
  · have htarget := hruns run hmem
    have hcode := hsign.eq_of_ofNat
    have hlow := hsign.2
    omega
  · exact heq

/-- A sign in the small letter of a character is that character. -/
theorem eq_of_mem_lowerChar {c sign : Char} (hsign : IsSign sign) (h : sign ∈ lowerChar c) :
    sign = c := by
  have hruns : ∀ run ∈ lowerRuns, 65 ≤ run.target := by decide +kernel
  rw [lowerChar] at h
  by_cases hc : c = 'İ'
  · rw [if_pos hc] at h
    have hlow := hsign.2
    rcases List.mem_cons.mp h with rfl | h
    · exact absurd hlow (by decide)
    · rw [List.mem_singleton.mp h] at hlow
      exact absurd hlow (by decide)
  · rw [if_neg hc] at h
    rw [List.mem_singleton.mp h] at hsign ⊢
    rw [map_eq_self_of_isSign hruns hsign, Char.ofNat_toNat]

/-! ## Spellings -/

/-- A sign in joined words stands in what was joined. -/
theorem mem_of_mem_joinWords {sign : Char} (hsign : IsSign sign) {atStart : Bool}
    {cs : List Char} (h : sign ∈ joinWords atStart cs) : sign ∈ cs := by
  induction cs generalizing atStart with
  | nil => cases h
  | cons c cs ih =>
      rw [joinWords] at h
      split at h
      · exact List.mem_cons_of_mem _ (ih h)
      split at h
      · rcases List.mem_append.mp h with hc | hrest
        · cases atStart with
          | true =>
              rw [if_pos rfl] at hc
              exact eq_of_mem_upperChar hsign hc ▸ List.mem_cons_self ..
          | false =>
              rw [if_neg Bool.false_ne_true] at hc
              exact List.mem_singleton.mp hc ▸ List.mem_cons_self ..
        · exact List.mem_cons_of_mem _ (ih hrest)
      · rcases List.mem_cons.mp h with rfl | hrest
        · exact List.mem_cons_self ..
        · exact List.mem_cons_of_mem _ (ih hrest)

/-- A sign in the Pascal-case spelling of a name stands in the name. -/
theorem mem_of_mem_pascalCase {sign : Char} (hsign : IsSign sign) {name : String}
    (h : sign ∈ (pascalCase name).toList) : sign ∈ name.toList := by
  rw [pascalCase, String.toList_ofList] at h
  exact mem_of_mem_joinWords hsign h

/-- A sign in small letters stands in the text. -/
theorem mem_of_mem_lowerCase {sign : Char} (hsign : IsSign sign) {name : String}
    (h : sign ∈ (lowerCase name).toList) : sign ∈ name.toList := by
  have hgen : ∀ cs before : List Char, sign ∈ lowerAfter before cs → sign ∈ cs := by
    intro cs
    induction cs with
    | nil => intro before h; cases h
    | cons c cs ih =>
        intro before h
        rw [lowerAfter] at h
        rcases List.mem_append.mp h with hc | hrest
        · split at hc
          · have hlow := hsign.2
            rw [List.mem_singleton.mp hc] at hlow
            split at hlow <;> exact absurd hlow (by decide)
          · exact eq_of_mem_lowerChar hsign hc ▸ List.mem_cons_self ..
        · exact List.mem_cons_of_mem _ (ih _ hrest)
  rw [lowerCase, String.toList_ofList] at h
  exact hgen _ _ h

end Stencil
