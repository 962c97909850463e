import Stencil.Schema.Token

/-! # Blanks in tokens

    A token may have blanks in it, line breaks among them, but each of them is sheltered:
    by a bracket that the token has opened and not closed, or by a literal.  This is told
    from the token alone (`Shelter.after`), since a token opens where no bracket and no
    literal is open. -/

namespace Stencil.Schema

open Stencil.Text (isBlank)
open TokenScan (isOpening isClosing)

/-! ## Shelter -/

/-- What a place of a token is sheltered by: a number of brackets and perhaps a literal. -/
inductive Shelter where
  | code (depth : Nat)
  /-- In a literal. -/
  | literal (depth : Nat)
  /-- In a literal, after a backslash. -/
  | escape (depth : Nat)
deriving DecidableEq, Repr

namespace Shelter

/-- The place after a character. -/
def next : Shelter → Char → Shelter
  | .code depth, c =>
      if c = '"' then .literal depth
      else if isOpening c then .code (depth + 1)
      else if isClosing c then .code (depth - 1)
      else .code depth
  | .literal depth, c =>
      if c = '"' then .code depth else if c = '\\' then .escape depth else .literal depth
  | .escape depth, _ => .literal depth

/-- The place after a text that opens a token. -/
def after (front : List Char) : Shelter :=
  front.foldl next (.code 0)

theorem after_snoc (front : List Char) (c : Char) :
    after (front ++ [c]) = (after front).next c :=
  List.foldl_append

end Shelter

/-- Whether each blank of a token stands inside of brackets or of a literal. -/
def BlanksSheltered (cs : List Char) : Prop :=
  ∀ (front : List Char) (c : Char) (back : List Char),
    cs = front ++ c :: back → isBlank c = true → Shelter.after front ≠ .code 0

namespace BlanksSheltered

variable {cs : List Char}

/-- What stands in the front of a token is as sheltered there. -/
theorem front {front : List Char} (h : BlanksSheltered cs) (hfront : front <+: cs) :
    BlanksSheltered front := by
  obtain ⟨rest, rfl⟩ := hfront
  intro before c back hcut
  refine h before c (back ++ rest) ?_
  rw [hcut, List.append_assoc, List.cons_append]

end BlanksSheltered

/-- Where nothing opens, nothing is sheltered. -/
theorem Shelter.after_plain {front : List Char}
    (h : ∀ c ∈ front, c ≠ '"' ∧ isOpening c = false) : after front = .code 0 := by
  induction front with
  | nil => rfl
  | cons c front ih =>
      obtain ⟨hquote, hopening⟩ := h c (List.mem_cons_self ..)
      have hstays : next (.code 0) c = .code 0 := by
        rw [next, if_neg hquote, if_neg (Bool.eq_false_iff.mp hopening)]
        split <;> rfl
      rw [after, List.foldl_cons, hstays]
      exact ih fun d hmem => h d (List.mem_cons_of_mem _ hmem)

/-- A token without brackets and literals has no blanks. -/
theorem BlanksSheltered.isBlank_eq_false {cs : List Char} (h : BlanksSheltered cs)
    (hplain : ∀ c ∈ cs, c ≠ '"' ∧ isOpening c = false) : ∀ c ∈ cs, isBlank c = false := by
  intro c hmem
  obtain ⟨front, back, rfl⟩ := List.append_of_mem hmem
  refine Bool.eq_false_iff.mpr fun hblank => h front c back rfl hblank ?_
  exact Shelter.after_plain fun d hd => hplain d (List.mem_append_left _ hd)

end Stencil.Schema
