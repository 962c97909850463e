import Stencil.Proofs.Schema.Concatenation
import Stencil.Schema.Positions

/-! # Positions in the bytes of a text

    A character below U+0080 is one byte, which is seen as the character itself.  All bytes
    of other characters are seen as characters from U+0080 on (`IsHigh`), none of which has
    a role for a scan.  So a position that stands between two characters (`At`) sees what
    comes next, and what is cut out between two such positions is what stands between them
    (`At.slice`).

    Literals and comments end between characters, too, though a backslash may lead into
    the middle of one (`At.literalEnd_quotable`). -/

namespace Stencil.Schema.Positions

open Stencil.Text (isBlank)

/-! ## The bytes of characters -/

/-- The bytes of some characters, each of them seen as a character. -/
def marksOf (cs : List Char) : List Char :=
  cs.flatMap fun c => (String.utf8EncodeChar c).map Char.ofUInt8

/-- Whether a character is none of those that are one byte. -/
def IsHigh (c : Char) : Prop :=
  128 ≤ c.val.toNat

instance (c : Char) : Decidable (IsHigh c) :=
  inferInstanceAs (Decidable (_ ≤ _))

variable {c d : Char} {cs : List Char}

theorem marks_ofList (cs : List Char) : marks (String.ofList cs) = marksOf cs := by
  rw [marks, marksOf, String.toUTF8_eq_toByteArray, String.toByteArray_ofList, List.utf8Encode,
    List.data_toByteArray, List.map_flatMap]

theorem marksOf_append (cs ds : List Char) : marksOf (cs ++ ds) = marksOf cs ++ marksOf ds :=
  List.flatMap_append

theorem marksOf_cons (c : Char) (cs : List Char) :
    marksOf (c :: cs) = (String.utf8EncodeChar c).map Char.ofUInt8 ++ marksOf cs := rfl

theorem length_marksOf (cs : List Char) : (marksOf cs).length = width cs := by
  induction cs with
  | nil => rfl
  | cons c cs ih =>
      rw [marksOf_cons, List.length_append, List.length_map, String.length_utf8EncodeChar, ih,
        width_cons]

theorem utf8Size_of_not_isHigh (hc : ¬ IsHigh c) : c.utf8Size = 1 := by
  rw [Char.utf8Size_eq_one_iff, UInt32.le_iff_toNat_le]
  exact Nat.lt_succ_iff.mp (Nat.lt_of_not_le hc)

/-- A character of one byte is seen as itself. -/
theorem marksOf_cons_of_not_isHigh (hc : ¬ IsHigh c) (cs : List Char) :
    marksOf (c :: cs) = c :: marksOf cs := by
  have hlt : c.val.toNat < 128 := Nat.lt_of_not_le hc
  have hbyte : Char.ofUInt8 (UInt8.ofNat c.val.toNat) = c := by
    refine Char.ext (UInt32.toNat_inj.mp ?_)
    show (UInt8.ofNat c.val.toNat).toUInt32.toNat = c.val.toNat
    rw [UInt8.toNat_toUInt32, UInt8.toNat_ofNat']
    omega
  rw [marksOf_cons, String.utf8EncodeChar, if_pos (Nat.le_of_lt_succ hlt), List.map_singleton,
    hbyte, List.singleton_append]

/-- All bytes of another character are high. -/
theorem isHigh_of_mem_encode (hc : IsHigh c)
    (hd : d ∈ (String.utf8EncodeChar c).map Char.ofUInt8) : IsHigh d := by
  have hbyte : ∀ n : Nat, 128 ≤ n → n < 256 → 128 ≤ (UInt8.ofNat n).toNat := by
    intro n hlow hhigh
    rw [UInt8.toNat_ofNat']
    omega
  have hbytes : ∀ b ∈ String.utf8EncodeChar c, 128 ≤ b.toNat := by
    have hlow : ¬ c.val.toNat ≤ 127 := Nat.not_le_of_lt hc
    rw [String.utf8EncodeChar, if_neg hlow]
    intro b hb
    split at hb
    · simp only [List.mem_cons, List.not_mem_nil, or_false] at hb
      rcases hb with rfl | rfl <;> exact hbyte _ (by omega) (by omega)
    · split at hb
      · simp only [List.mem_cons, List.not_mem_nil, or_false] at hb
        rcases hb with rfl | rfl | rfl <;> exact hbyte _ (by omega) (by omega)
      · simp only [List.mem_cons, List.not_mem_nil, or_false] at hb
        rcases hb with rfl | rfl | rfl | rfl <;> exact hbyte _ (by omega) (by omega)
  obtain ⟨b, hb, rfl⟩ := List.mem_map.mp hd
  show 128 ≤ b.toUInt32.toNat
  rw [UInt8.toNat_toUInt32]
  exact hbytes b hb

/-- A byte of some characters is high, or one of the characters. -/
theorem mem_marksOf (h : d ∈ marksOf cs) : IsHigh d ∨ d ∈ cs := by
  obtain ⟨c, hc, hd⟩ := List.mem_flatMap.mp h
  by_cases hhigh : IsHigh c
  · exact Or.inl (isHigh_of_mem_encode hhigh hd)
  · have hself := marksOf_cons_of_not_isHigh hhigh []
    rw [marksOf_cons] at hself
    rw [(List.append_inj_left' hself rfl : _ = [c])] at hd
    exact Or.inr (List.mem_singleton.mp hd ▸ hc)

/-- The first byte is high, or the first character. -/
theorem isHigh_or_head? (h : (marksOf cs).head? = some d) : IsHigh d ∨ cs.head? = some d := by
  cases cs with
  | nil => exact Or.inr h
  | cons c cs =>
      by_cases hc : IsHigh c
      · refine Or.inl (isHigh_of_mem_encode hc ?_)
        obtain ⟨b, bytes, hbytes⟩ := List.exists_cons_of_length_pos
          (String.length_utf8EncodeChar c ▸ c.utf8Size_pos)
        rw [marksOf_cons, hbytes] at h
        rw [hbytes, ← Option.some.inj h]
        exact List.mem_cons_self ..
      · rw [marksOf_cons_of_not_isHigh hc] at h
        exact Or.inr h

/-- A byte that is a character comes first where the character does. -/
theorem head?_marksOf (hd : ¬ IsHigh d) :
    (marksOf cs).head? = some d ↔ cs.head? = some d := by
  refine ⟨fun h => (isHigh_or_head? h).resolve_left hd, fun h => ?_⟩
  obtain ⟨cs, rfl⟩ := List.head?_eq_some_iff.mp h
  rw [marksOf_cons_of_not_isHigh hd]
  rfl

/-! ## High characters have no role -/

theorem IsHigh.ne (hc : IsHigh c) (hd : ¬ IsHigh d) : c ≠ d :=
  fun h => hd (h ▸ hc)

theorem IsHigh.isNameChar (hc : IsHigh c) : isNameChar c = false := by
  cases h : Schema.isNameChar c with
  | false => rfl
  | true =>
      exfalso
      delta Schema.isNameChar Char.isAlphanum Char.isAlpha Char.isUpper Char.isLower
        Char.isDigit at h
      simp only [Bool.or_eq_true, Bool.and_eq_true, decide_eq_true_eq, ge_iff_le,
        UInt32.le_iff_toNat_le] at h
      rw [IsHigh] at hc
      rcases h with ((⟨-, h⟩ | ⟨-, h⟩) | ⟨-, h⟩) | rfl
      · exact absurd (Nat.le_trans hc h) (by decide)
      · exact absurd (Nat.le_trans hc h) (by decide)
      · exact absurd (Nat.le_trans hc h) (by decide)
      · exact absurd hc (by decide)

theorem IsHigh.isBlank (hc : IsHigh c) : isBlank c = false := by
  cases h : Text.isBlank c with
  | false => rfl
  | true =>
      simp only [Text.isBlank, Bool.or_eq_true, decide_eq_true_eq] at h
      rcases h with (((rfl | rfl) | rfl) | rfl) | rfl <;> exact absurd hc (by decide)

theorem IsHigh.isOpening (hc : IsHigh c) : TokenScan.isOpening c = false := by
  simp only [TokenScan.isOpening, decide_eq_false (hc.ne (d := '(') (by decide)),
    decide_eq_false (hc.ne (d := '[') (by decide)), decide_eq_false (hc.ne (d := '{') (by decide)),
    Bool.or_self]

theorem IsHigh.isClosing (hc : IsHigh c) : TokenScan.isClosing c = false := by
  simp only [TokenScan.isClosing, decide_eq_false (hc.ne (d := ')') (by decide)),
    decide_eq_false (hc.ne (d := ']') (by decide)), decide_eq_false (hc.ne (d := '}') (by decide)),
    Bool.or_self]

/-! ## Positions between characters -/

/-- Whether a position of a text stands between two parts of it. -/
structure At (t : List Char) (position : Nat) (before rest : List Char) : Prop where
  text : t = before ++ rest
  position : position = width before

variable {t before rest : List Char} {position : Nat}

theorem At.start (t : List Char) : At t 0 [] t := ⟨rfl, rfl⟩

theorem At.move (part : List Char) (h : At t position before (part ++ rest)) :
    At t (position + width part) (before ++ part) rest where
  text := by rw [h.text, List.append_assoc]
  position := by rw [h.position, width_append]

theorem At.drop (h : At t position before rest) : (marksOf t).drop position = marksOf rest := by
  rw [h.text, marksOf_append, h.position, ← length_marksOf, List.drop_left]

theorem At.length (h : At t position before rest) :
    (marksOf t).length = position + width rest := by
  rw [length_marksOf, h.text, width_append, h.position]

theorem At.getElem? (h : At t position before rest) (i : Nat) :
    (marksOf t)[position + i]? = (marksOf rest)[i]? := by
  rw [← List.getElem?_drop, h.drop]

theorem At.head? (h : At t position before rest) :
    (marksOf t)[position]? = (marksOf rest).head? := by
  rw [List.head?_eq_getElem?, ← h.getElem? 0, Nat.add_zero]

/-- The byte of a character that is a single one. -/
theorem At.getElem (h : At t position before (c :: rest)) (hc : ¬ IsHigh c)
    (hlt : position < (marksOf t).length) : (marksOf t)[position] = c := by
  have hhead := h.head?
  rw [marksOf_cons_of_not_isHigh hc, List.getElem?_eq_getElem hlt] at hhead
  exact Option.some.inj hhead

/-- The bytes of a character that has several. -/
theorem At.isHigh_getElem (h : At t position before (c :: rest)) (hc : IsHigh c) {i : Nat}
    (hi : i < c.utf8Size) (hlt : position + i < (marksOf t).length) :
    IsHigh (marksOf t)[position + i] := by
  have hbyte := h.getElem? i
  rw [marksOf_cons, List.getElem?_append_left (by
    rw [List.length_map, String.length_utf8EncodeChar]
    exact hi), List.getElem?_eq_getElem hlt] at hbyte
  exact isHigh_of_mem_encode hc (List.mem_of_getElem? hbyte.symm)

theorem At.lt (h : At t position before (c :: rest)) : position < (marksOf t).length := by
  have hpos := c.utf8Size_pos
  rw [h.length, width_cons]
  omega

/-- A comment starts where two slashes stand. -/
theorem At.startsComment (h : At t position before (c :: rest)) (hc : ¬ IsHigh c)
    (hlt : position < (marksOf t).length) :
    startsComment (marksOf t) position hlt = true ↔ c = '/' ∧ rest.head? = some '/' := by
  have hnext : (marksOf t)[position + 1]? = (marksOf rest).head? := by
    rw [h.getElem? 1, marksOf_cons_of_not_isHigh hc, List.getElem?_cons_succ,
      List.head?_eq_getElem?]
  rw [Positions.startsComment, h.getElem hc hlt, hnext, Bool.and_eq_true, decide_eq_true_eq,
    decide_eq_true_eq, head?_marksOf (by decide)]

/-- A run of characters that are single bytes is passed over. -/
theorem At.skipWhile {p : Char → Bool} (hp : ∀ c, IsHigh c → p c = false) {part : List Char}
    (h : At t position before (part ++ rest)) (hpart : ∀ c ∈ part, p c = true)
    (hrest : ∀ c, rest.head? = some c → p c = false) :
    skipWhile p (marksOf t) position = position + width part := by
  have hsame : marksOf part = part := by
    clear h
    induction part with
    | nil => rfl
    | cons c part ih =>
        have hc : ¬ IsHigh c := fun hc =>
          absurd ((hp c hc).symm.trans (hpart c (List.mem_cons_self ..))) Bool.false_ne_true
        rw [marksOf_cons_of_not_isHigh hc, ih fun d hd => hpart d (List.mem_cons_of_mem _ hd)]
  have hstop : (marksOf rest).takeWhile p = [] := by
    cases hmarks : marksOf rest with
    | nil => rfl
    | cons d ds =>
        have hd : p d = false := by
          have hhead : (marksOf rest).head? = some d := by rw [hmarks]; rfl
          rcases isHigh_or_head? hhead with hd | hd
          · exact hp d hd
          · exact hrest d hd
        rw [List.takeWhile_cons, hd]
        rfl
  rw [Positions.skipWhile, h.drop, marksOf_append, hsame, List.takeWhile_append_of_pos hpart,
    hstop, List.append_nil, ← hsame, length_marksOf, hsame]

/-- A comment ends before the newline, or at the end. -/
theorem At.lineEnd (remark : List Char) (h : At t position before (remark ++ rest))
    (hremark : '\n' ∉ remark) (hrest : ∀ c, rest.head? = some c → c = '\n') :
    lineEnd (marksOf t) position = position + width remark := by
  have hnone : (marksOf remark).findIdx? (· = '\n') = none := by
    rw [List.findIdx?_eq_none_iff]
    intro d hd
    refine decide_eq_false fun hline => ?_
    rcases mem_marksOf hd with hhigh | hmem
    · exact hhigh.ne (by decide) hline
    · exact hremark (hline ▸ hmem)
  rw [Positions.lineEnd, h.drop, marksOf_append, List.findIdx?_append, hnone, Option.none_or,
    length_marksOf]
  cases rest with
  | nil =>
      show (marksOf t).length = _
      rw [h.length, List.append_nil]
  | cons c rest =>
      obtain rfl := hrest c rfl
      rw [marksOf_cons_of_not_isHigh (by decide), List.findIdx?_cons, if_pos (by decide)]
      show position + (0 + width remark) = _
      rw [Nat.zero_add]

theorem lineEnd_le (m : List Char) (position : Nat) : lineEnd m position ≤ m.length := by
  rw [lineEnd]
  cases h : (m.drop position).findIdx? (· = '\n') with
  | none => exact Nat.le_refl _
  | some distance =>
      have hlt := (List.findIdx?_eq_some_iff_findIdx_eq.mp h).1
      rw [List.length_drop] at hlt
      show position + distance ≤ m.length
      omega

/-! ## Literals -/

theorem literalEnd_le (m : List Char) (position : Nat) : literalEnd m position ≤ m.length := by
  induction position using literalEnd.induct m with
  | case1 position h hslash ih => rw [literalEnd, dif_pos h, if_pos hslash]; exact ih
  | case2 position h hslash hquote =>
      rw [literalEnd, dif_pos h, if_neg hslash, if_pos hquote]
      exact h
  | case3 position h hslash hquote ih =>
      rw [literalEnd, dif_pos h, if_neg hslash, if_neg hquote]
      exact ih
  | case4 position h =>
      rewrite [literalEnd, dif_neg h]
      exact Nat.le_refl _

/-- High bytes in a literal are passed over. -/
theorem literalEnd_high {m : List Char} {n : Nat} (hle : position + n ≤ m.length)
    (hhigh : ∀ i, i < n → ∀ hlt : position + i < m.length, IsHigh m[position + i]) :
    literalEnd m position = literalEnd m (position + n) := by
  induction n with
  | zero => rfl
  | succ n ih =>
      have hlt : position + n < m.length := hle
      have hbyte := hhigh n (Nat.lt_succ_self n) hlt
      rw [ih (Nat.le_of_lt hlt) fun i hi => hhigh i (Nat.lt_succ_of_lt hi), literalEnd,
        dif_pos hlt, if_neg (hbyte.ne (by decide)), if_neg (hbyte.ne (by decide)), Nat.add_assoc]

/-- What may stand in a literal is passed over. -/
theorem At.literalEnd_quotable {inside : List Char} (hin : Quotable inside)
    (h : At t position before (inside ++ rest)) :
    literalEnd (marksOf t) position = literalEnd (marksOf t) (position + width inside) := by
  induction hin generalizing position before with
  | nil => rfl
  | @plain c inside hquote hslash _ ih =>
      have hnext := ih (h.move [c])
      rw [width_cons, width_nil, Nat.add_zero] at hnext
      rw [width_cons, ← Nat.add_assoc, ← hnext]
      by_cases hc : IsHigh c
      · refine literalEnd_high ?_ fun i hi hlt => h.isHigh_getElem hc hi hlt
        rw [h.length, List.cons_append, width_cons]
        omega
      · rw [literalEnd, dif_pos h.lt, h.getElem hc h.lt, if_neg hslash, if_neg hquote,
          utf8Size_of_not_isHigh hc]
  | @escaped c inside _ ih =>
      have hmove := h.move ['\\']
      have hafter := h.move ['\\', c]
      have hnext := ih hafter
      have hwidth : position + width ('\\' :: c :: inside)
          = position + width ['\\', c] + width inside := by
        simp only [width_cons, width_nil]
        omega
      rw [hwidth, ← hnext, literalEnd, dif_pos h.lt, h.getElem (by decide) h.lt, if_pos rfl]
      by_cases hc : IsHigh c
      · -- the backslash has taken the first byte of the character along
        have hstep : position + width ['\\', c] = position + 2 + (c.utf8Size - 1) := by
          have hpos := c.utf8Size_pos
          have hone : ('\\' : Char).utf8Size = 1 := rfl
          simp only [width_cons, width_nil, hone]
          omega
        rw [hstep]
        refine literalEnd_high ?_ fun i hi hlt => ?_
        · rw [← hstep, hafter.length]
          exact Nat.le_add_right _ _
        · have hbyte := hmove.isHigh_getElem hc (i := i + 1) (by omega) (by
            show position + 1 + (i + 1) < _
            omega)
          have hindex : position + width ['\\'] + (i + 1) = position + 2 + i := by
            show position + 1 + (i + 1) = _
            omega
          simpa only [hindex] using hbyte
      · have hone : position + width ['\\', c] = position + 2 := by
          simp only [width_cons, width_nil, utf8Size_of_not_isHigh hc]
          rfl
        rw [hone]

/-- A text in a literal goes up to the closing quote, or to the end of the text, where a
    backslash may come last. -/
theorem exists_quotable : ∀ cs : List Char, ∃ inside rest, Quotable inside ∧ cs = inside ++ rest
    ∧ (rest = [] ∨ rest = ['\\'] ∨ ∃ after, rest = '"' :: after)
  | [] => ⟨[], [], Quotable.nil, rfl, Or.inl rfl⟩
  | c :: cs => by
      by_cases hquote : c = '"'
      · exact ⟨[], c :: cs, Quotable.nil, rfl, Or.inr (Or.inr ⟨cs, by rw [hquote]⟩)⟩
      by_cases hslash : c = '\\'
      · subst hslash
        match cs with
        | [] => exact ⟨[], ['\\'], Quotable.nil, rfl, Or.inr (Or.inl rfl)⟩
        | d :: cs =>
            obtain ⟨inside, rest, hin, rfl, hrest⟩ := exists_quotable cs
            exact ⟨'\\' :: d :: inside, rest, Quotable.escaped hin, rfl, hrest⟩
      · obtain ⟨inside, rest, hin, rfl, hrest⟩ := exists_quotable cs
        exact ⟨c :: inside, rest, Quotable.plain hquote hslash hin, rfl, hrest⟩

/-- A closed literal ends after its quote. -/
theorem At.literalEnd_closed {inside : List Char} (hin : Quotable inside)
    (h : At t position before (inside ++ '"' :: rest)) :
    literalEnd (marksOf t) position = position + width inside + 1 := by
  have hclose := h.move inside
  rw [h.literalEnd_quotable hin, literalEnd, dif_pos hclose.lt,
    hclose.getElem (by decide) hclose.lt, if_neg (by decide), if_pos rfl]

/-- A literal that is not closed ends with the text. -/
theorem At.literalEnd_open {inside : List Char} (hin : Quotable inside)
    (hrest : rest = [] ∨ rest = ['\\']) (h : At t position before (inside ++ rest)) :
    literalEnd (marksOf t) position = (marksOf t).length := by
  have hend := h.move inside
  rw [h.literalEnd_quotable hin]
  rcases hrest with rfl | rfl
  · rw [literalEnd, dif_neg (by rw [hend.length]; exact Nat.lt_irrefl _)]
  · rw [literalEnd, dif_pos hend.lt, hend.getElem (by decide) hend.lt, if_pos rfl, literalEnd,
      dif_neg (by
        rw [hend.length]
        show ¬ position + width inside + 2 < position + width inside + 1
        omega)]

/-- A literal is not closed, or ends after its quote. -/
theorem At.literal_cases (h : At t position before ('"' :: rest)) :
    (∃ inside tail, Quotable inside ∧ (tail = [] ∨ tail = ['\\']) ∧ rest = inside ++ tail
      ∧ literalEnd (marksOf t) (position + 1) = (marksOf t).length)
    ∨ ∃ inside after, Quotable inside ∧ '"' :: rest = '"' :: (inside ++ ['"']) ++ after
      ∧ literalEnd (marksOf t) (position + 1) = position + width ('"' :: (inside ++ ['"'])) := by
  have hone := h.move ['"']
  obtain ⟨inside, after, hin, rfl, hafter⟩ := exists_quotable rest
  rcases or_assoc.mpr hafter with hopen | ⟨after, rfl⟩
  · exact Or.inl ⟨inside, after, hin, hopen, rfl, hone.literalEnd_open hin hopen⟩
  · refine Or.inr ⟨inside, after, hin, ?_, ?_⟩
    · rw [List.cons_append, List.append_assoc, List.singleton_append]
    · rw [show position + 1 = position + width ['"'] from rfl, hone.literalEnd_closed hin]
      simp only [width_cons, width_append, width_nil, utf8Size_marks]
      omega

/-! ## Cutting out -/

/-- What stands between two positions is cut out whole. -/
theorem At.slice (part : List Char) (h : At t position before (part ++ rest)) :
    slice (String.ofList t) position (position + width part) = .ok (String.ofList part) := by
  have hwidth : ∀ cs : List Char, (String.ofList cs).rawEndPos = ⟨width cs⟩ := by
    intro cs
    rw [← String.toList_ofList (l := cs), width_toList, String.toList_ofList]
    rfl
  have htext : String.ofList t
      = String.ofList before ++ (String.ofList part ++ String.ofList rest) := by
    rw [h.text, String.ofList_append, String.ofList_append]
  have hstart : (⟨position⟩ : String.Pos.Raw).IsValid (String.ofList t) :=
    String.Pos.Raw.isValid_iff_exists_append.mpr
      ⟨_, _, htext, by rw [hwidth, h.position]⟩
  have hstop : (⟨position + width part⟩ : String.Pos.Raw).IsValid (String.ofList t) :=
    String.Pos.Raw.isValid_iff_exists_append.mpr
      ⟨String.ofList (before ++ part), String.ofList rest, by
        rw [htext, String.ofList_append, String.append_assoc], by
        rw [hwidth, h.position, width_append]⟩
  rw [Positions.slice, dif_pos ⟨hstart, hstop, Nat.le_add_right _ _⟩]
  refine congrArg Except.ok (String.toByteArray_inj.mp ?_)
  have hsize : ∀ cs : List Char, (String.ofList cs).toByteArray.size = width cs := by
    intro cs
    exact congrArg String.Pos.Raw.byteIdx (hwidth cs)
  rw [String.toByteArray_extract]
  show (String.ofList t).toByteArray.extract position (position + width part) = _
  have hfront : ∀ a b : ByteArray, a.size = width before →
      (a ++ b).extract (width before) (width before + width part) = b.extract 0 (width part) :=
    fun a b ha => ByteArray.extract_append_size_add' (i := 0) ha.symm
  rw [htext, String.toByteArray_append, String.toByteArray_append, h.position,
    hfront _ _ (hsize before), ByteArray.extract_append_eq_left (hsize part).symm]

/-! ## Loops -/

section Walk

variable {σ β : Type} {size n next : Nat} {finish : σ → Checked β} {state state' : σ} {answer : β}
variable {turn : (position : Nat) → position < size → σ → Checked (Turn σ β)}

/-- A turn that moves on. -/
theorem walk_on (hlt : position < size) (hturn : turn position hlt state = .ok (.on next state'))
    (hmoves : position < next) (hle : next ≤ size) :
    walk size turn finish position state = walk size turn finish next state' := by
  rw [walk, dif_pos hlt, hturn]
  show (if position < next then _ else _) = _
  rw [if_pos hmoves, if_pos hle]

/-- A turn that ends the loop. -/
theorem walk_over (hlt : position < size) (hturn : turn position hlt state = .ok (.over answer)) :
    walk size turn finish position state = .ok answer := by
  rw [walk, dif_pos hlt, hturn]

/-- The end of the text ends the loop. -/
theorem walk_finish (hle : size ≤ position) :
    walk size turn finish position state = finish state := by
  rw [walk, dif_neg (Nat.not_lt_of_le hle)]

/-- Turns that move on by a byte each and leave the state as it is. -/
theorem walk_through (hle : position + n ≤ size)
    (hturn : ∀ i, i < n → ∀ hlt : position + i < size,
      turn (position + i) hlt state = .ok (.on (position + i + 1) state)) :
    walk size turn finish position state = walk size turn finish (position + n) state := by
  induction n with
  | zero => rfl
  | succ n ih =>
      rw [ih (Nat.le_of_lt hle) fun i hi => hturn i (Nat.lt_succ_of_lt hi)]
      exact walk_on hle (hturn n (Nat.lt_succ_self n) hle) (Nat.lt_succ_self _) hle

end Walk

/-- A turn that moves over some characters. -/
theorem At.walk_on {σ β : Type} {finish : σ → Checked β} {state state' : σ} (part : List Char)
    {turn : (position : Nat) → position < (marksOf t).length → σ → Checked (Turn σ β)}
    (h : At t position before (part ++ rest)) (hne : part ≠ [])
    (hlt : position < (marksOf t).length)
    (hturn : turn position hlt state = .ok (.on (position + width part) state')) :
    walk (marksOf t).length turn finish position state
      = walk (marksOf t).length turn finish (position + width part) state' := by
  refine Positions.walk_on hlt hturn ?_ ?_
  · obtain ⟨c, part, rfl⟩ := List.exists_cons_of_ne_nil hne
    have hpos := c.utf8Size_pos
    rw [width_cons]
    omega
  · rw [h.length, width_append]
    omega

/-- A character whose bytes all leave the state as it is. -/
theorem At.walk_inert {σ β : Type} {finish : σ → Checked β} {state : σ}
    {turn : (position : Nat) → position < (marksOf t).length → σ → Checked (Turn σ β)}
    (h : At t position before (c :: rest))
    (hturn : ∀ (q : Nat) (hlt : q < (marksOf t).length),
      (marksOf t)[q] = c ∨ IsHigh (marksOf t)[q] → turn q hlt state = .ok (.on (q + 1) state)) :
    walk (marksOf t).length turn finish position state
      = walk (marksOf t).length turn finish (position + width [c]) state := by
  have hlength := h.length
  rw [width_cons] at hlength
  rw [width_cons, width_nil, Nat.add_zero]
  refine walk_through (by omega) fun i hi hlt => hturn _ hlt ?_
  by_cases hc : IsHigh c
  · exact Or.inr (h.isHigh_getElem hc hi hlt)
  · rw [utf8Size_of_not_isHigh hc] at hi
    obtain rfl : i = 0 := Nat.lt_one_iff.mp hi
    exact Or.inl (h.getElem hc hlt)

/-! ## Runs of characters -/

/-- A text starts with as many characters of a kind as it has. -/
theorem exists_run (p : Char → Bool) (cs : List Char) :
    ∃ part rest : List Char, cs = part ++ rest ∧ (∀ c ∈ part, p c = true)
      ∧ ∀ c, rest.head? = some c → p c = false := by
  refine ⟨cs.takeWhile p, cs.dropWhile p, (List.takeWhile_append_dropWhile).symm,
    List.all_eq_true.mp List.all_takeWhile, fun c hc => ?_⟩
  have hstop := List.head?_dropWhile_not p cs
  rw [hc] at hstop
  exact hstop

/-- A text starts with a remark, up to a newline or its end. -/
theorem exists_remark (cs : List Char) :
    ∃ remark rest : List Char, cs = remark ++ rest ∧ '\n' ∉ remark
      ∧ ∀ c, rest.head? = some c → c = '\n' := by
  obtain ⟨remark, rest, rfl, hremark, hrest⟩ := exists_run (fun c => decide (c ≠ '\n')) cs
  refine ⟨remark, rest, rfl, fun hmem => of_decide_eq_true (hremark _ hmem) rfl, fun c hc => ?_⟩
  exact Classical.byContradiction fun hne => of_decide_eq_false (hrest c hc) hne

/-- A comment is a remark after two slashes. -/
theorem At.comment_cases (h : At t position before ('/' :: '/' :: rest)) :
    ∃ remark after, '/' :: '/' :: rest = '/' :: '/' :: remark ++ after ∧ '\n' ∉ remark
      ∧ (∀ c, after.head? = some c → c = '\n')
      ∧ Positions.lineEnd (marksOf t) position = position + width ('/' :: '/' :: remark) := by
  obtain ⟨remark, after, rfl, hremark, hafter⟩ := exists_remark rest
  refine ⟨remark, after, rfl, hremark, hafter, h.lineEnd ('/' :: '/' :: remark) ?_ hafter⟩
  rw [List.mem_cons, List.mem_cons, not_or, not_or]
  exact ⟨by decide, by decide, hremark⟩

end Stencil.Schema.Positions
