import Stencil.Spelling

/-! # Pascal case changes separators and case only

    Names in a schema consist of ASCII letters, digits and underscores.  For a text
    that comes to such a name when its separators are taken out, the Pascal-case
    spelling is the text without them, the case of letters aside: each character
    between two separators is kept or replaced by its one capital
    (`map_toLower_joinWords`).  Texts of other characters may expand, as `ß` to
    `SS`. -/

namespace Stencil

open Text

/-! ## ASCII letters and digits -/

/-- What holds of the first 128 characters holds of every ASCII character. -/
theorem forall_ascii {P : Char → Prop} (h : ∀ code < 128, P (Char.ofNat code)) {c : Char}
    (hc : c.toNat < 128) : P c :=
  Char.ofNat_toNat c ▸ h c.toNat hc

variable {c d : Char}

theorem isAlphanum_iff :
    c.isAlphanum = true ↔ (c.isUpper = true ∨ c.isLower = true) ∨ c.isDigit = true := by
  show ((c.isUpper || c.isLower) || c.isDigit) = true ↔ _
  rw [Bool.or_eq_true, Bool.or_eq_true]

theorem toNat_lt_of_isAlphanum (h : c.isAlphanum = true) : c.toNat < 128 := by
  have hle : ∀ last : Char, c.val ≤ last.val → c.toNat ≤ last.toNat :=
    fun _ hlast => UInt32.le_iff_toNat_le.mp hlast
  rcases isAlphanum_iff.mp h with (hupper | hlower) | hdigit
  · exact Nat.lt_of_le_of_lt (hle 'Z' (of_decide_eq_true hupper).2) (by decide)
  · exact Nat.lt_of_le_of_lt
      (hle 'z' (of_decide_eq_true (Bool.and_eq_true_iff.mp hlower).2)) (by decide)
  · exact Nat.lt_of_le_of_lt
      (hle '9' (of_decide_eq_true (Bool.and_eq_true_iff.mp hdigit).2)) (by decide)

/-- An ASCII letter or digit is part of a word, and its capital is one character that differs in
    case at most. -/
structure IsWordPart (c : Char) : Prop where
  alphanumeric : isAlphanumeric c = true
  not_separator : isSeparator c = false
  capital : (upperChar c).map Char.toLower = [c.toLower]
  small : c.toLower.isAlphanum = true

instance : Decidable (IsWordPart c) :=
  decidable_of_iff (isAlphanumeric c = true ∧ isSeparator c = false
      ∧ (upperChar c).map Char.toLower = [c.toLower] ∧ c.toLower.isAlphanum = true)
    ⟨fun h => ⟨h.1, h.2.1, h.2.2.1, h.2.2.2⟩,
      fun h => ⟨h.alphanumeric, h.not_separator, h.capital, h.small⟩⟩

theorem isWordPart_of_isAlphanum (h : c.isAlphanum = true) : IsWordPart c :=
  forall_ascii (P := fun c => c.isAlphanum = true → IsWordPart c) (by decide +kernel)
    (toNat_lt_of_isAlphanum h) h

theorem toLower_eq_self (h : ¬ c.isUpper = true) : c.toLower = c := by
  show dite _ _ _ = c
  exact dif_neg fun hupper => h (decide_eq_true hupper)

/-- What has the same small letter as an ASCII letter or digit is one itself. -/
theorem isAlphanum_of_toLower_eq (h : c.toLower = d.toLower) (hd : d.isAlphanum = true) :
    c.isAlphanum = true := by
  by_cases hupper : c.isUpper = true
  · exact isAlphanum_iff.mpr (Or.inl (Or.inl hupper))
  · rw [← toLower_eq_self hupper, h]
    exact (isWordPart_of_isAlphanum hd).small

theorem toLower_eq_underscore_iff : c.toLower = '_' ↔ c = '_' := by
  constructor
  · intro h
    by_cases hupper : c.isUpper = true
    · have halphanum : c.isAlphanum = true := isAlphanum_iff.mpr (Or.inl (Or.inl hupper))
      have hsmall := (isWordPart_of_isAlphanum halphanum).small
      rw [h] at hsmall
      cases hsmall
    · rwa [toLower_eq_self hupper] at h
  · rintro rfl
    rfl

/-! ## Spellings without separators -/

/-- A text without the separators of its words. -/
def unseparated (text : String) : String :=
  String.ofList (text.toList.filter fun c => !isSeparator c)

/-- Words are joined without their separators, the case of letters aside. -/
theorem map_toLower_joinWords {cs : List Char}
    (h : ∀ c ∈ cs, isSeparator c = false → c.isAlphanum = true) (atStart : Bool) :
    (joinWords atStart cs).map Char.toLower
      = (cs.filter fun c => !isSeparator c).map Char.toLower := by
  induction cs generalizing atStart with
  | nil => rfl
  | cons c cs ih =>
      have hrest := ih fun d hd => h d (List.mem_cons_of_mem _ hd)
      rw [joinWords, List.filter_cons]
      cases hseparator : isSeparator c with
      | true => exact hrest true
      | false =>
          have hpart := isWordPart_of_isAlphanum (h c (List.mem_cons_self ..) hseparator)
          have hfirst : (if atStart then upperChar c else [c]).map Char.toLower = [c.toLower] := by
            cases atStart with
            | true => exact hpart.capital
            | false => rfl
          rw [if_neg Bool.false_ne_true, if_pos hpart.alphanumeric, List.map_append, hfirst,
            hrest false]
          rfl

theorem map_toLower_pascalCase {text : String}
    (h : ∀ c ∈ text.toList, isSeparator c = false → c.isAlphanum = true) :
    (pascalCase text).toList.map Char.toLower = (unseparated text).toList.map Char.toLower := by
  rw [pascalCase, unseparated, String.toList_ofList, String.toList_ofList]
  exact map_toLower_joinWords h true

end Stencil
