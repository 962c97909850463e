/-! # Searching a text

    Whether one text occurs inside another, and the removal of a repeated last
    character. -/

namespace Stencil.Text

/-- Whether `part` occurs in a text as a whole. -/
def occursIn (part : List Char) : List Char → Bool
  | [] => part.isEmpty
  | c :: rest => part.isPrefixOf (c :: rest) || occursIn part rest

/-- A search finds what is part of a text. -/
theorem occursIn_iff {part cs : List Char} : occursIn part cs = true ↔ part <:+: cs := by
  induction cs with
  | nil => rw [occursIn, List.isEmpty_iff, List.infix_nil]
  | cons c cs ih =>
      rw [occursIn, Bool.or_eq_true, ih, List.isPrefixOf_iff_prefix, List.infix_cons_iff]

/-- What occurs in a text does not reach over a character that it has not. -/
theorem occursIn_append_cons {part : List Char} {c : Char} (hne : part ≠ []) (hc : c ∉ part)
    (a b : List Char) : occursIn part (a ++ c :: b) = (occursIn part a || occursIn part b) := by
  rw [Bool.eq_iff_iff, Bool.or_eq_true, occursIn_iff, occursIn_iff, occursIn_iff]
  constructor
  · intro h
    rcases List.infix_append_iff.mp h with ha | hb | ⟨x, y, rfl, hx, hy⟩
    · exact Or.inl ha
    · rcases List.infix_cons_iff.mp hb with hfront | hb
      · rcases List.prefix_cons_iff.mp hfront with hnil | ⟨t, rfl, -⟩
        · exact absurd hnil hne
        · exact absurd (List.mem_cons_self ..) hc
      · exact Or.inr hb
    · rcases List.prefix_cons_iff.mp hy with rfl | ⟨t, rfl, -⟩
      · rw [List.append_nil]
        exact Or.inl hx.isInfix
      · exact absurd (List.mem_append_right x (List.mem_cons_self ..)) hc
  · rintro (ha | hb)
    · exact ha.trans (List.prefix_append a _).isInfix
    · exact hb.trans ((List.suffix_cons c b).trans (List.suffix_append a _)).isInfix

/-- What ends in a character stands over the first place of this character or after it. -/
theorem occursIn_concat {part a : List Char} {c : Char} (hpart : c ∉ part) (ha : c ∉ a)
    (b : List Char) : occursIn (part ++ [c]) (a ++ c :: b) = true
      ↔ part <:+ a ∨ occursIn (part ++ [c]) b = true := by
  have hlast : c ∈ part ++ [c] := List.mem_append_right part (List.mem_cons_self ..)
  rw [occursIn_iff, occursIn_iff]
  constructor
  · intro h
    rcases List.infix_append_iff.mp h with hfront | hrest | ⟨x, y, hxy, hx, hy⟩
    · exact absurd (hfront.subset hlast) ha
    · rcases List.infix_cons_iff.mp hrest with hfirst | hrest
      · cases part with
        | nil => exact Or.inl List.nil_suffix
        | cons d part =>
            obtain ⟨rfl, -⟩ := List.cons_prefix_cons.mp hfirst
            exact absurd (List.mem_cons_self ..) hpart
      · exact Or.inr hrest
    · -- the part is cut in two: the character begins the second half, and ends it
      rcases List.prefix_cons_iff.mp hy with rfl | ⟨y, rfl, -⟩
      · rw [List.append_nil] at hxy
        exact absurd (hx.subset (hxy ▸ hlast)) ha
      · rcases List.eq_nil_or_concat y with rfl | ⟨z, d, rfl⟩
        · rw [(List.append_inj' hxy rfl).1]
          exact Or.inl hx
        · rw [List.concat_eq_append, ← List.cons_append, ← List.append_assoc] at hxy
          rw [(List.append_inj' hxy rfl).1] at hpart
          exact absurd (List.mem_append_right x (List.mem_cons_self ..)) hpart
  · rintro (⟨front, rfl⟩ | hrest)
    · exact ⟨front, b, by rw [List.append_assoc, List.append_assoc, List.append_assoc]; rfl⟩
    · exact hrest.trans ((List.suffix_cons c b).trans (List.suffix_append a _)).isInfix

/-- A text without the copies of `c` at its end. -/
def stripTrailing (c : Char) (cs : List Char) : List Char :=
  (cs.reverse.dropWhile (· = c)).reverse

/-- What is left does not end in `c`. -/
theorem getLast?_stripTrailing (c : Char) (cs : List Char) :
    (stripTrailing c cs).getLast? ≠ some c := by
  rw [stripTrailing, List.getLast?_reverse]
  induction cs.reverse with
  | nil => simp
  | cons d rest ih =>
      by_cases hd : d = c
      · simpa [List.dropWhile_cons, hd] using ih
      · simp [hd]

end Stencil.Text
