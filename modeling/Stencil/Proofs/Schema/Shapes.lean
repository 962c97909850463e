import Stencil.Proofs.Schema.Written

/-! # Shapes of schema text

    How the shapes of schema text fit together: what is nested or solid is
    balanced, and balanced texts may be joined wherever no two slashes meet.  So
    a body made of tokens and fillers is balanced (`Balanced.join`). -/

namespace Stencil.Schema

open Stencil.Text (isBlank)

/-! ## Balanced texts -/

theorem getLast?_append_cons (cs rest : List Char) (c : Char) {d : Char}
    (h : rest.getLast? = some d) : (cs ++ c :: rest).getLast? = some d := by
  rw [List.getLast?_append, List.getLast?_cons, h]
  rfl

/-- Balanced texts may be joined where no two slashes meet. -/
theorem Balanced.append {a b : List Char} (ha : Balanced a) (hb : Balanced b)
    (h : a.getLast? = some '/' → b.head? ≠ some '/') : Balanced (a ++ b) := by
  induction ha with
  | nil => exact hb
  | @plain c rest hq ho hc hs _ ih =>
      refine Balanced.plain hq ho hc ?_ (ih ?_)
      · intro hslash
        cases rest with
        | nil => exact h (by rw [hslash]; rfl)
        | cons d rest => exact hs hslash
      · intro hl
        exact h (getLast?_append_cons [] rest c hl)
  | @literal inside rest hin _ ih =>
      have hrest := ih (fun hl => h (getLast?_append_cons ('"' :: inside) rest '"' hl))
      rw [List.cons_append, List.append_assoc, List.cons_append]
      exact Balanced.literal hin hrest
  | @comment remark rest hin _ ih =>
      have hrest := ih (fun hl => h (getLast?_append_cons ('/' :: '/' :: remark) rest '\n' hl))
      rw [List.cons_append, List.cons_append, List.append_assoc, List.cons_append]
      exact Balanced.comment hin hrest
  | @braces inside rest hin _ _ ih =>
      have hrest := ih (fun hl => h (getLast?_append_cons ('{' :: inside) rest '}' hl))
      rw [List.cons_append, List.append_assoc, List.cons_append]
      exact Balanced.braces hin hrest

/-- A character with no role among braces, literals and comments is balanced. -/
theorem Balanced.singleton {c : Char} (hq : c ≠ '"') (ho : c ≠ '{') (hc : c ≠ '}') :
    Balanced [c] :=
  Balanced.plain hq ho hc (fun _ h => by cases h) Balanced.nil

/-- A balanced text in brackets, followed by a balanced text, is balanced. -/
theorem Balanced.group (shape : Bracket) {inside rest : List Char}
    (hin : Balanced inside) (hrest : Balanced rest) :
    Balanced (shape.opening :: (inside ++ shape.closing :: rest)) := by
  cases shape with
  | round =>
      have hclosing : Balanced (')' :: rest) :=
        Balanced.plain (by decide) (by decide) (by decide) (fun h => absurd h (by decide)) hrest
      exact Balanced.plain (by decide) (by decide) (by decide) (fun h => absurd h (by decide))
        (hin.append hclosing (fun _ h => absurd (Option.some.inj h) (by decide)))
  | square =>
      have hclosing : Balanced (']' :: rest) :=
        Balanced.plain (by decide) (by decide) (by decide) (fun h => absurd h (by decide)) hrest
      exact Balanced.plain (by decide) (by decide) (by decide) (fun h => absurd h (by decide))
        (hin.append hclosing (fun _ h => absurd (Option.some.inj h) (by decide)))
  | curly => exact Balanced.braces hin hrest

/-! ## Nested, solid and filling texts -/

/-- Matching brackets of all kinds are matching braces in particular. -/
theorem Nested.balanced {cs : List Char} (h : Nested cs) : Balanced cs := by
  induction h with
  | nil => exact Balanced.nil
  | @plain c rest hq ho hc hs _ ih =>
      refine Balanced.plain hq ?_ ?_ hs ih
      · rintro rfl; exact absurd ho (by decide)
      · rintro rfl; exact absurd hc (by decide)
  | literal hin _ ih => exact Balanced.literal hin ih
  | group shape _ _ ihin ihrest => exact ihin.group shape ihrest

theorem isPlain_ne {c : Char} (h : isPlain c = true) :
    c ≠ '"' ∧ c ≠ '@' ∧ c ≠ '/' ∧ TokenScan.isOpening c = false
      ∧ TokenScan.isClosing c = false ∧ isBlank c = false := by
  simp only [isPlain, Bool.and_eq_true, decide_eq_true_eq, Bool.not_eq_true'] at h
  obtain ⟨⟨⟨⟨⟨hb, hq⟩, ha⟩, hs⟩, ho⟩, hc⟩ := h
  exact ⟨hq, ha, hs, ho, hc, hb⟩

/-- A solid text is balanced. -/
theorem Solid.balanced {cs : List Char} (h : Solid cs) : Balanced cs := by
  induction h with
  | nil => exact Balanced.nil
  | @plain c rest hc _ ih =>
      obtain ⟨hq, -, hs, ho, hcl, -⟩ := isPlain_ne hc
      refine Balanced.plain hq ?_ ?_ (fun h => absurd h hs) ih
      · rintro rfl; exact absurd ho (by decide)
      · rintro rfl; exact absurd hcl (by decide)
  | group shape hin _ ih => exact hin.balanced.group shape ih

theorem Solid.append {a b : List Char} (ha : Solid a) (hb : Solid b) : Solid (a ++ b) := by
  induction ha with
  | nil => exact hb
  | plain hc _ ih => exact Solid.plain hc ih
  | @group shape inside rest hin _ ih =>
      rw [List.cons_append, List.append_assoc, List.cons_append]
      exact Solid.group shape hin ih

theorem Solid.of_plain {cs : List Char} (h : ∀ c ∈ cs, isPlain c = true) : Solid cs := by
  induction cs with
  | nil => exact Solid.nil
  | cons c rest ih =>
      exact Solid.plain (h c (List.mem_cons_self ..))
        (ih (fun d hd => h d (List.mem_cons_of_mem _ hd)))

theorem Solid.head?_ne {cs : List Char} (h : Solid cs) : cs.head? ≠ some '@' := by
  cases h with
  | nil => intro h; cases h
  | plain hc _ => exact fun h => (isPlain_ne hc).2.1 (Option.some.inj h)
  | group shape _ _ => cases shape <;> exact fun h => absurd (Option.some.inj h) (by decide)

theorem Bracket.closing_ne (shape : Bracket) :
    shape.closing ≠ '@' ∧ shape.closing ≠ '/' := by
  cases shape <;> exact ⟨by decide, by decide⟩

/-- A solid text ends neither in an at sign nor in a slash. -/
theorem Solid.getLast?_ne {cs : List Char} (h : Solid cs) :
    cs.getLast? ≠ some '@' ∧ cs.getLast? ≠ some '/' := by
  induction h with
  | nil => exact ⟨fun h => (by cases h), fun h => (by cases h)⟩
  | @plain c rest hc _ ih =>
      rw [List.getLast?_cons]
      cases hl : rest.getLast? with
      | none =>
          obtain ⟨-, ha, hs, -⟩ := isPlain_ne hc
          exact ⟨fun h => ha (Option.some.inj h), fun h => hs (Option.some.inj h)⟩
      | some d => rw [hl] at ih; exact ih
  | @group shape inside rest _ _ ih =>
      rw [List.getLast?_cons, List.getLast?_append, List.getLast?_cons]
      cases hl : rest.getLast? with
      | none =>
          obtain ⟨ha, hs⟩ := shape.closing_ne
          exact ⟨fun h => ha (Option.some.inj h), fun h => hs (Option.some.inj h)⟩
      | some d => rw [hl] at ih; exact ih

/-- A filler is balanced and does not end in a slash. -/
theorem Filler.balanced {cs : List Char} (h : Filler cs) :
    Balanced cs ∧ cs.getLast? ≠ some '/' := by
  induction h with
  | nil => exact ⟨Balanced.nil, fun h => by cases h⟩
  | @blank c rest hc _ ih =>
      have hne : c ≠ '"' ∧ c ≠ '{' ∧ c ≠ '}' ∧ c ≠ '/' := by
        refine ⟨?_, ?_, ?_, ?_⟩ <;> rintro rfl <;> exact absurd hc (by decide)
      obtain ⟨hq, ho, hcl, hs⟩ := hne
      refine ⟨Balanced.plain hq ho hcl (fun h => absurd h hs) ih.1, ?_⟩
      rw [List.getLast?_cons]
      cases hl : rest.getLast? with
      | none => exact fun h => hs (Option.some.inj h)
      | some d => rw [hl] at ih; exact ih.2
  | @comment remark rest hin _ ih =>
      refine ⟨Balanced.comment hin ih.1, ?_⟩
      rw [← List.cons_append, ← List.cons_append, List.getLast?_append, List.getLast?_cons]
      cases hl : rest.getLast? with
      | none => exact fun h => absurd (Option.some.inj h) (by decide)
      | some d => rw [hl] at ih; exact ih.2

/-! ## Tokens -/

/-- A token is balanced, is not empty, and ends neither in an at sign nor in a
    slash. -/
theorem IsToken.facts {token : List Char} (h : IsToken token) :
    Balanced token ∧ token ≠ [] ∧ token.getLast? ≠ some '@' ∧ token.getLast? ≠ some '/' := by
  obtain ⟨sign, solid, hsign, hne, hsolid, rfl⟩ := h
  have hat : Balanced ['@'] := Balanced.singleton (by decide) (by decide) (by decide)
  have hbal : Balanced sign ∧ sign.getLast? ≠ some '/' := by
    rcases hsign with rfl | rfl | rfl
    · exact ⟨Balanced.nil, by decide⟩
    · exact ⟨hat, by decide⟩
    · exact ⟨hat.append hat (by decide), by decide⟩
  obtain ⟨hlat, hlslash⟩ := hsolid.getLast?_ne
  have hlast : (sign ++ solid).getLast? = solid.getLast? := by
    obtain ⟨c, rest, rfl⟩ := List.exists_cons_of_ne_nil hne
    rw [List.getLast?_append, List.getLast?_cons]
    rfl
  refine ⟨hbal.1.append hsolid.balanced (fun h => absurd h hbal.2), ?_, ?_, ?_⟩
  · intro h
    exact hne (List.append_eq_nil_iff.mp h).2
  · rw [hlast]; exact hlat
  · rw [hlast]; exact hlslash

end Stencil.Schema
