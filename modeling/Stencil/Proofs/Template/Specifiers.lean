import Stencil.Proofs.Files.Location
import Stencil.Proofs.Template.Replacement
import Stencil.Template.Lines

/-! # Specifiers of imports

    A generated text imports from specifiers, each of which stands between quotes on a
    line of its own (`of_mem_relativeSpecifiers`).  No slot has a quote in it, so a
    specifier is filled in apart from the text around it (`fillTemplate_quoted`).  It is
    followed from the directory of the file that it stands in (`Resolves`). -/

namespace Stencil

open Files (Location follow)
open Schema (Model)

namespace TypeScript

/-! ## Import lines -/

/-- The text between the first two quotes of a line. -/
def quoted? (line : List Char) : Option (List Char) :=
  let rest := (line.dropWhile (· ≠ '"')).drop 1
  if '"' ∈ rest then some (rest.takeWhile (· ≠ '"')) else none

/-- The specifier that a text imports from if it starts with an import. -/
def importAt? (text : List Char) : Option (List Char) :=
  if "import ".toList.isPrefixOf text then quoted? (text.takeWhile (· ≠ '\n')) else none

/-- The specifiers that the lines of a text import from, in order; the first line may be
    the end of one. -/
def specifiers (lineStart : Bool) : List Char → List (List Char)
  | [] => []
  | c :: rest =>
      (if lineStart then (importAt? (c :: rest)).toList else []) ++ specifiers (c = '\n') rest

/-- Whether a specifier is meant from the importing file. -/
def isRelative (specifier : List Char) : Bool :=
  "./".toList.isPrefixOf specifier || "../".toList.isPrefixOf specifier

/-- The relative specifiers that a text imports from. -/
def relativeSpecifiers (text : String) : List String :=
  ((specifiers true text.toList).filter isRelative).map String.ofList

/-! ## Where imports lead -/

/-- Where a specifier leads from the directory of a file. -/
def resolve (importer specifier : String) : Location :=
  follow (Path.names importer).dropLast (Path.names specifier)

/-- Whether a specifier leads to a file: the ending may be left out, or the file is the index
    of a directory. -/
def Resolves (importer specifier target : String) : Prop :=
  target = "/".intercalate (resolve importer specifier) ++ ".ts"
    ∨ target = "/".intercalate (resolve importer specifier) ++ "/index.ts"

variable {text line specifier : List Char} {lineStart : Bool}

/-- A text is cut where a character first stands. -/
theorem eq_cut {c : Char} (h : c ∈ text) :
    text = text.takeWhile (· ≠ c) ++ c :: (text.dropWhile (· ≠ c)).drop 1 := by
  induction text with
  | nil => cases h
  | cons d text ih =>
      by_cases hd : d = c
      · subst hd
        rw [List.takeWhile_cons_of_neg (by simp), List.dropWhile_cons_of_neg (by simp)]
        rfl
      · have hrest : c ∈ text := (List.mem_cons.mp h).resolve_left (Ne.symm hd)
        rw [List.takeWhile_cons_of_pos (by simpa using hd),
          List.dropWhile_cons_of_pos (by simpa using hd), List.cons_append, ← ih hrest]

/-- What is between the quotes stands between quotes. -/
theorem of_quoted? (h : quoted? line = some specifier) :
    ∃ front back : List Char, line = front ++ '"' :: (specifier ++ '"' :: back) := by
  rw [quoted?] at h
  split at h
  next hsecond =>
    obtain rfl := Option.some.inj h
    have hfirst : '"' ∈ line :=
      (List.dropWhile_sublist _).subset ((List.drop_sublist _ _).subset hsecond)
    have hrest := congrArg (fun rest => line.takeWhile (· ≠ '"') ++ '"' :: rest) (eq_cut hsecond)
    exact ⟨_, _, (eq_cut hfirst).trans hrest⟩
  next => cases h

/-- A specifier stands between quotes. -/
theorem of_mem_specifiers (h : specifier ∈ specifiers lineStart text) :
    ∃ front back : List Char, text = front ++ '"' :: (specifier ++ '"' :: back) := by
  induction text generalizing lineStart with
  | nil => cases h
  | cons c rest ih =>
      rcases List.mem_append.mp h with hhere | hlater
      · have himport : importAt? (c :: rest) = some specifier := by
          cases lineStart with
          | true => exact Option.mem_toList.mp hhere
          | false => cases hhere
        rw [importAt?] at himport
        split at himport
        next =>
          obtain ⟨front, back, hline⟩ := of_quoted? himport
          have hsplit := List.takeWhile_append_dropWhile (p := (· ≠ '\n')) (l := c :: rest)
          rw [hline] at hsplit
          exact ⟨front, back ++ (c :: rest).dropWhile (· ≠ '\n'), hsplit.symm.trans (by simp)⟩
        next => cases himport
      · obtain ⟨front, back, hrest⟩ := ih hlater
        exact ⟨c :: front, back, congrArg (c :: ·) hrest⟩

theorem of_mem_relativeSpecifiers {text specifier : String}
    (h : specifier ∈ relativeSpecifiers text) :
    ∃ front back : String, text = front ++ "\"" ++ specifier ++ "\"" ++ back := by
  obtain ⟨characters, hmem, rfl⟩ := List.mem_map.mp h
  obtain ⟨front, back, htext⟩ := of_mem_specifiers (List.mem_of_mem_filter hmem)
  refine ⟨String.ofList front, String.ofList back, String.toList_inj.mp ?_⟩
  rw [htext]
  simp

/-! ## Texts that are spelt out -/

/-- Whether texts are written with certain characters. -/
inductive SpeltOut : List String → List (List Char) → Prop where
  | nil : SpeltOut [] []
  | cons {text : String} {texts : List String} {spelt : List Char} {rest : List (List Char)} :
      text = String.ofList spelt → SpeltOut texts rest → SpeltOut (text :: texts) (spelt :: rest)

theorem SpeltOut.toList_ofLines {lines : List String} {spelt : List (List Char)}
    (h : SpeltOut lines spelt) : (Template.ofLines lines).toList
      = spelt.flatMap fun line => line.map Template.brace ++ ['\n'] := by
  rw [Template.ofLines, String.toList_ofList]
  induction h with
  | nil => rfl
  | cons htext _ ih => rw [htext, List.flatMap_cons, List.flatMap_cons, ih, String.toList_ofList]

/-- The relative specifiers that lines import from, told from their characters. -/
def relativeSpecifiersOf (spelt : List (List Char)) : List String :=
  ((specifiers true (spelt.flatMap fun line => line.map Template.brace ++ ['\n'])).filter
    isRelative).map String.ofList

/-- The imports of lines that are spelt out, found without decoding them again. -/
theorem SpeltOut.relativeSpecifiers_eq {lines : List String} {spelt : List (List Char)}
    (h : SpeltOut lines spelt) :
    relativeSpecifiers (Template.ofLines lines) = relativeSpecifiersOf spelt := by
  rw [relativeSpecifiers, h.toList_ofLines, relativeSpecifiersOf]

theorem SpeltOut.mem_relativeSpecifiers {lines : List String} {spelt : List (List Char)}
    {specifier : String} (h : SpeltOut lines spelt) (hmem : specifier ∈ relativeSpecifiersOf spelt) :
    specifier ∈ relativeSpecifiers (Template.ofLines lines) :=
  h.relativeSpecifiers_eq ▸ hmem

theorem SpeltOut.relativeSpecifiers_subset {lines imports : List String} {spelt : List (List Char)}
    (h : SpeltOut lines spelt) (himports : relativeSpecifiersOf spelt ⊆ imports) :
    relativeSpecifiers (Template.ofLines lines) ⊆ imports :=
  h.relativeSpecifiers_eq ▸ himports

/-! ## Filling around a quote -/

/-- A template can be cut before a character that is in no slot. -/
theorem cleanCut_cons {c : Char} (hc : ∀ slot : Slot, c ∉ slot.written) (front back : List Char) :
    CleanCut front (c :: back) := by
  intro slot before after heq
  rcases List.append_eq_append_iff.mp heq with ⟨between, hends, hrest⟩ | ⟨between, hfront, -⟩
  · cases between with
    | nil =>
        rw [List.append_nil] at hends
        exact Or.inl (hends ▸ List.prefix_refl _)
    | cons d between =>
        obtain rfl : c = d := (List.cons.inj hrest).1
        rcases List.append_eq_append_iff.mp hends with ⟨more, -, hslot⟩ | ⟨more, hbefore, -⟩
        · refine absurd ?_ (hc slot)
          rw [hslot]
          exact List.mem_append_right _ (List.mem_cons_self ..)
        · exact Or.inr ⟨more, hbefore.symm⟩
  · exact Or.inl ⟨between, hfront.symm⟩

/-- A template can be cut after a character that is in no slot. -/
theorem cleanCut_singleton {c : Char} (hc : ∀ slot : Slot, c ∉ slot.written) (back : List Char) :
    CleanCut [c] back := by
  intro slot before after heq
  cases before with
  | cons d before =>
      obtain rfl : c = d := (List.cons.inj heq).1
      exact Or.inr ⟨before, rfl⟩
  | nil =>
      refine absurd ?_ (hc slot)
      obtain ⟨d, rest, hslot⟩ := List.exists_cons_of_length_pos slot.length_written_pos
      rw [hslot] at heq ⊢
      exact (List.cons.inj heq).1 ▸ List.mem_cons_self ..

/-- A character that is in no slot parts a template. -/
theorem pieceFill_cons {c : Char} (hc : ∀ slot : Slot, c ∉ slot.written)
    (filling : Slot → List Char) (front back : List Char) :
    pieceFill filling (front ++ c :: back)
      = pieceFill filling front ++ c :: pieceFill filling back := by
  have hsingle : pieceFill filling [c] = [c] := by
    refine pieceFill_of_slotless fun slot hslot => ?_
    have hlength := hslot.length_le
    rw [Slot.written_eq_token] at hlength
    simp [token] at hlength
  have hback : pieceFill filling (c :: back) = c :: pieceFill filling back := by
    rw [← List.singleton_append, pieceFill_append (cleanCut_singleton hc back), hsingle]
    rfl
  rw [pieceFill_append (cleanCut_cons hc front back), hback]

theorem quote_not_mem (slot : Slot) : '"' ∉ slot.written := by
  cases slot <;> decide

/-- What stands between quotes is filled in apart. -/
theorem fillTemplate_quoted (front between back module : String) (fields : Option Model) :
    fillTemplate (front ++ "\"" ++ between ++ "\"" ++ back) module fields
      = fillTemplate front module fields ++ "\"" ++ fillTemplate between module fields ++ "\""
        ++ fillTemplate back module fields := by
  have htext : (front ++ "\"" ++ between ++ "\"" ++ back).toList
      = front.toList ++ '"' :: (between.toList ++ '"' :: back.toList) := by
    simp
  refine String.toList_inj.mp ?_
  rw [toList_fillTemplate, htext, pieceFill_cons quote_not_mem, pieceFill_cons quote_not_mem]
  simp [toList_fillTemplate]

end TypeScript

end Stencil
