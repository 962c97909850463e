import Stencil.Proofs.Spelling

/-! # Pascal case, word by word

    Separators cut a text into words, and say nothing else: the Pascal-case spelling is
    that of its words, one after the other (`pascalCase_eq_join`).  Which separators
    stand between two words, how many of them, and whether there are some at the ends, is
    of no account.

    No separator comes in either.  Whatever a character is capitalised to, and be it to
    several characters, none of them separates words (`not_isSeparator_of_mem_upperChar`).
    The payoff is `pascalCase_word_by_word`. -/

namespace Stencil

open Text

/-! ## Capitals -/

/-- The code points of separators. -/
def separatorRanges : Ranges :=
  (0x2D, 0x2D) :: (0x5F, 0x5F) :: spaceRanges

theorem isSeparator_eq_has (c : Char) : isSeparator c = separatorRanges.has c := by
  have hsign : ∀ sign : Char, decide (c = sign)
      = (decide (sign.toNat ≤ c.toNat) && decide (c.toNat ≤ sign.toNat)) := by
    intro sign
    rw [← Bool.decide_and, decide_eq_decide]
    constructor
    · rintro rfl
      exact ⟨Nat.le_refl _, Nat.le_refl _⟩
    · rintro ⟨hle, hge⟩
      exact Char.toNat_inj.mp (Nat.le_antisymm hge hle)
  rw [isSeparator, hsign '-', hsign '_', Bool.or_assoc]
  rfl

/-- What lies outside of the ranges is no separator. -/
theorem not_isSeparator_ofNat {code : Nat}
    (h : ∀ range ∈ separatorRanges, code < range.1 ∨ range.2 < code) :
    isSeparator (Char.ofNat code) = false := by
  rw [isSeparator_eq_has, Ranges.has, List.any_eq_false]
  intro range hmem hin
  obtain ⟨hfirst, hlast⟩ := Bool.and_eq_true_iff.mp hin
  have hfirst := of_decide_eq_true hfirst
  have hlast := of_decide_eq_true hlast
  rcases toNat_ofNat code with heq | hzero
  · have hout := h range hmem
    omega
  · -- a code that is no character stands for NUL, which no range has
    have hpos : ∀ range ∈ separatorRanges, 0 < range.1 := by decide
    have := hpos range hmem
    omega

/-- Runs whose targets lie outside of the ranges of separators map nothing to one. -/
theorem not_isSeparator_of_run {run : CaseRun} {code : Nat} (hhas : run.has code = true)
    (hruns : ∀ range ∈ separatorRanges,
      run.target + (run.last - run.first) < range.1 ∨ range.2 < run.target) :
    isSeparator (Char.ofNat (run.target + (code - run.first))) = false := by
  rw [CaseRun.has, Bool.and_eq_true, Bool.and_eq_true] at hhas
  have hfirst := of_decide_eq_true hhas.1.1
  have hlast := of_decide_eq_true hhas.1.2
  refine not_isSeparator_ofNat fun range hmem => ?_
  have hout := hruns range hmem
  omega

/-- No character of a capital is a separator. -/
theorem not_isSeparator_of_mem_upperChar {c d : Char} (hc : isSeparator c = false)
    (hd : d ∈ upperChar c) : isSeparator d = false := by
  have hexpansions : ∀ entry ∈ upperExpansions, ∀ code ∈ entry.2,
      isSeparator (Char.ofNat code) = false := by decide +kernel
  have hruns : ∀ run ∈ upperRuns, ∀ range ∈ separatorRanges,
      run.target + (run.last - run.first) < range.1 ∨ range.2 < run.target := by
    decide +kernel
  rcases mem_upperChar hd with ⟨entry, hentry, code, hmem, rfl⟩ | ⟨run, hmem, hhas, rfl⟩ | ⟨rfl, -⟩
  · exact hexpansions entry hentry code hmem
  · exact not_isSeparator_of_run hhas (hruns run hmem)
  · exact hc

/-! ## Joined words -/

theorem joinWords_separator {c : Char} (h : isSeparator c = true) (atStart : Bool)
    (cs : List Char) : joinWords atStart (c :: cs) = joinWords true cs :=
  if_pos h

theorem joinWords_word {c : Char} (h : isSeparator c = false) (atStart : Bool) (cs : List Char) :
    joinWords atStart (c :: cs)
      = if isAlphanumeric c then (if atStart then upperChar c else [c]) ++ joinWords false cs
        else c :: joinWords true cs :=
  if_neg (Bool.eq_false_iff.mp h)

/-- No separator stands in joined words. -/
theorem not_isSeparator_of_mem_joinWords {d : Char} {atStart : Bool} {cs : List Char}
    (h : d ∈ joinWords atStart cs) : isSeparator d = false := by
  induction cs generalizing atStart with
  | nil => cases h
  | cons c cs ih =>
      cases hseparator : isSeparator c with
      | true =>
          rw [joinWords_separator hseparator] at h
          exact ih h
      | false =>
          rw [joinWords_word hseparator] at h
          split at h
          · rcases List.mem_append.mp h with hfirst | hrest
            · split at hfirst
              · exact not_isSeparator_of_mem_upperChar hseparator hfirst
              · rwa [List.mem_singleton.mp hfirst]
            · exact ih hrest
          · rcases List.mem_cons.mp h with rfl | hrest
            · exact hseparator
            · exact ih hrest

/-! ## Words -/

/-- The words of a text: what its separators cut it into, empty pieces left out. -/
def words (text : String) : List String :=
  ((text.toList.splitOnP isSeparator).filter fun word => !word.isEmpty).map String.ofList

/-- Whether a text consists of separators, of one at least. -/
structure IsSeparatorRun (s : String) : Prop where
  nonempty : s ≠ ""
  separators : ∀ c ∈ s.toList, isSeparator c = true

/-- Pieces are joined one by one, all but the first one from the start of a word. -/
theorem joinWords_of_splitOnP {cs piece : List Char} {pieces : List (List Char)}
    (h : cs.splitOnP isSeparator = piece :: pieces) (atStart : Bool) :
    joinWords atStart cs = joinWords atStart piece ++ pieces.flatMap (joinWords true) := by
  induction cs generalizing piece pieces atStart with
  | nil =>
      obtain ⟨rfl, rfl⟩ := List.cons.inj (List.splitOnP_nil.symm.trans h)
      rfl
  | cons c cs ih =>
      obtain ⟨next, others, hnext⟩ := List.exists_cons_of_ne_nil (List.splitOnP_ne_nil isSeparator cs)
      rw [List.splitOnP_cons_eq_if_modifyHead, hnext] at h
      cases hseparator : isSeparator c with
      | true =>
          rw [hseparator, if_pos rfl] at h
          obtain ⟨rfl, rfl⟩ := List.cons.inj h
          rw [joinWords_separator hseparator, ih hnext true]
          rfl
      | false =>
          rw [hseparator, if_neg Bool.false_ne_true] at h
          obtain ⟨rfl, rfl⟩ := List.cons.inj h
          rw [joinWords_word hseparator, joinWords_word hseparator]
          by_cases halphanumeric : isAlphanumeric c = true
          · rw [if_pos halphanumeric, if_pos halphanumeric, ih hnext false, List.append_assoc]
          · rw [if_neg halphanumeric, if_neg halphanumeric, ih hnext true, List.cons_append]

theorem joinWords_eq_flatMap (cs : List Char) :
    joinWords true cs = (cs.splitOnP isSeparator).flatMap (joinWords true) := by
  obtain ⟨piece, pieces, h⟩ := List.exists_cons_of_ne_nil (List.splitOnP_ne_nil isSeparator cs)
  rw [joinWords_of_splitOnP h, h, List.flatMap_cons]

/-- What stands on the two sides of a separator is joined apart. -/
theorem joinWords_append_separator (a b : List Char) {c : Char} (hc : isSeparator c = true) :
    joinWords true (a ++ c :: b) = joinWords true a ++ joinWords true b := by
  rw [joinWords_eq_flatMap, List.splitOnP_append_cons a b hc, List.flatMap_append,
    ← joinWords_eq_flatMap, ← joinWords_eq_flatMap]

/-- Separators in front leave nothing behind. -/
theorem joinWords_separators {s : List Char} (h : ∀ c ∈ s, isSeparator c = true)
    (b : List Char) : joinWords true (s ++ b) = joinWords true b := by
  induction s with
  | nil => rfl
  | cons c s ih =>
      rw [List.cons_append, joinWords_separator (h c (List.mem_cons_self ..))]
      exact ih fun d hd => h d (List.mem_cons_of_mem _ hd)

/-- The spelling of a text is that of its words, one after the other. -/
theorem pascalCase_eq_join (text : String) :
    pascalCase text = String.join ((words text).map pascalCase) := by
  have hdropped : ∀ pieces : List (List Char),
      pieces.flatMap (joinWords true)
        = (pieces.filter fun word => !word.isEmpty).flatMap (joinWords true) := by
    intro pieces
    induction pieces with
    | nil => rfl
    | cons piece pieces ih =>
        cases piece with
        | nil => exact ih
        | cons c piece => exact congrArg (joinWords true (c :: piece) ++ ·) ih
  apply String.toList_injective
  rw [pascalCase, String.toList_ofList, joinWords_eq_flatMap, hdropped, words, List.map_map,
    String.toList_join, List.flatMap_map]
  simp only [Function.comp_apply, pascalCase, String.toList_ofList]

/-- **Pascal case splits on separators only.**  A run of separators between two texts leaves no
    trace but that each of the texts is spelt by itself; so a text is spelt as its words are, one
    after the other, whichever separators stand between them and around them.  And no separator
    stands in a spelling, whatever characters the capitals are. -/
theorem pascalCase_word_by_word :
    (∀ a s b : String, IsSeparatorRun s → pascalCase (a ++ s ++ b) = pascalCase a ++ pascalCase b)
      ∧ (∀ text : String, pascalCase text = String.join ((words text).map pascalCase))
      ∧ ∀ text : String, ∀ c ∈ (pascalCase text).toList, isSeparator c = false := by
  refine ⟨?_, pascalCase_eq_join, ?_⟩
  · intro a s b hs
    obtain ⟨c, run, hlist⟩ := List.exists_cons_of_ne_nil
      fun hnil => hs.nonempty (String.toList_eq_nil_iff.mp hnil)
    have hrun := hs.separators
    rw [hlist] at hrun
    have hsplit : (a ++ s ++ b).toList = a.toList ++ c :: (run ++ b.toList) := by
      rw [String.toList_append, String.toList_append, hlist, List.append_assoc, List.cons_append]
    rw [pascalCase, hsplit, joinWords_append_separator _ _ (hrun c (List.mem_cons_self ..)),
      joinWords_separators fun d hd => hrun d (List.mem_cons_of_mem _ hd), String.ofList_append]
    rfl
  · intro text c hmem
    rw [pascalCase, String.toList_ofList] at hmem
    exact not_isSeparator_of_mem_joinWords hmem

/-- Separators of three kinds between two words of which the first character has a capital of
    two characters. -/
theorem pascalCase_word_by_word_eszett :
    IsSeparatorRun "-_\u00A0" ∧ pascalCase ("ßa" ++ "-_\u00A0" ++ "ßb") = "SSa" ++ "SSb"
      ∧ words "__ßa - ßb\u2003" = ["ßa", "ßb"] ∧ pascalCase "__ßa - ßb\u2003" = "SSaSSb"
      ∧ isSeparator 'S' = false := by
  obtain ⟨hsplit, hwords, hnone⟩ := pascalCase_word_by_word
  have hrun : IsSeparatorRun "-_\u00A0" :=
    ⟨by decide, List.all_eq_true.mp (by decide +kernel)⟩
  have hfirst : pascalCase "ßa" = "SSa" := by decide +kernel
  have hsecond : pascalCase "ßb" = "SSb" := by decide +kernel
  have hlist : words "__ßa - ßb\u2003" = ["ßa", "ßb"] := by decide +kernel
  refine ⟨hrun, ?_, hlist, ?_, hnone "ßa" 'S' ?_⟩
  · rw [hsplit _ _ _ hrun, hfirst, hsecond]
  · rw [hwords, hlist, List.map_cons, List.map_cons, hfirst, hsecond]
    rfl
  · rw [hfirst]
    decide

end Stencil
