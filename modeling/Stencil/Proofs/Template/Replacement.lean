import Stencil.Proofs.Template.BraceSearch

/-! # Filling is replacing

    A template can be taken apart in just one way into slots and literal text
    without slots (`Parts.eq_of_text_eq`), and filling it puts what fills each slot
    in its place and leaves the literal text as it is.

    The payoff is `fillTemplate_replaces_slots`: filling replaces all slots at
    once.  Keys that are unknown, braces too many and tokens that are not closed
    stay, and halves of a template can be filled apart from each other. -/

namespace Stencil

open Schema (Model)

/-! ## Taking a template apart -/

/-- A template taken apart: literal text and slots in turn. -/
inductive Parts where
  | last (literal : List Char)
  | slot (literal : List Char) (which : Slot) (rest : Parts)
deriving DecidableEq, Repr

namespace Parts

/-- The parts put together, each slot made what fills it. -/
def fill (filling : Slot → List Char) : Parts → List Char
  | last literal => literal
  | slot literal which rest => literal ++ filling which ++ rest.fill filling

/-- The template that was taken apart. -/
def text (parts : Parts) : List Char :=
  parts.fill Slot.written

/-- Whether there is no slot in literal text. -/
def Plain : Parts → Prop
  | last literal => Slotless literal
  | slot literal _ rest => Slotless literal ∧ rest.Plain

/-- The parts with one more character in front. -/
def cons (x : Char) : Parts → Parts
  | last literal => last (x :: literal)
  | slot literal which rest => slot (x :: literal) which rest

theorem text_cons (x : Char) (parts : Parts) : (parts.cons x).text = x :: parts.text := by
  cases parts <;> rfl

theorem prefix_text_last (literal : List Char) : literal <+: (last literal).text :=
  List.prefix_refl literal

theorem prefix_text_slot (literal : List Char) (which : Slot) (rest : Parts) :
    literal <+: (slot literal which rest).text := by
  refine ⟨which.written ++ rest.text, ?_⟩
  rw [← List.append_assoc]
  rfl

/-- Literal text stays without slots if none starts at the new character. -/
theorem slotless_cons {x : Char} {literal whole : List Char} (h : Slotless literal)
    (hfront : literal <+: whole) (hnone : ∀ which : Slot, ¬ which.written <+: x :: whole) :
    Slotless (x :: literal) := by
  intro which hin
  rcases List.infix_cons_iff.mp hin with hfirst | hrest
  · exact hnone which (hfirst.trans (List.cons_prefix_cons.mpr ⟨rfl, hfront⟩))
  · exact h which hrest

theorem Plain.cons {x : Char} {parts : Parts} (h : parts.Plain)
    (hnone : ∀ which : Slot, ¬ which.written <+: x :: parts.text) : (parts.cons x).Plain := by
  cases parts with
  | last literal => exact slotless_cons h (prefix_text_last literal) hnone
  | slot literal which rest =>
      exact ⟨slotless_cons h.1 (prefix_text_slot literal which rest) hnone, h.2⟩

/-- Every template can be taken apart. -/
theorem exists_plain (template : List Char) :
    ∃ parts : Parts, parts.Plain ∧ parts.text = template := by
  fun_induction Piece.split template with
  | case1 =>
      refine ⟨last [], fun which hin => ?_, rfl⟩
      exact absurd (List.eq_nil_of_infix_nil hin)
        (List.ne_nil_of_length_pos which.length_written_pos)
  | case2 c rest which hfound ih =>
      obtain ⟨tail, htail⟩ := Piece.of_slotAt? hfound
      rw [htail, List.drop_left] at ih
      obtain ⟨parts, hplain, htext⟩ := ih
      refine ⟨slot [] which parts, ⟨fun other hin => ?_, hplain⟩, ?_⟩
      · exact absurd (List.eq_nil_of_infix_nil hin)
          (List.ne_nil_of_length_pos other.length_written_pos)
      · rw [htail, ← htext]
        rfl
  | case3 c rest hnone ih =>
      obtain ⟨parts, hplain, rfl⟩ := ih
      exact ⟨parts.cons c, hplain.cons (Piece.not_prefix_of_slotAt? hnone), text_cons c parts⟩

/-- A slot after literal text without slots is the first one. -/
theorem eq_of_slotless {literal literal' rest rest' : List Char} {which which' : Slot}
    (h : Slotless literal) (h' : Slotless literal')
    (heq : literal ++ which.written ++ rest = literal' ++ which'.written ++ rest') :
    literal = literal' ∧ which = which' ∧ rest = rest' := by
  rcases token_apart which.braceless which'.braceless heq with ⟨rfl, hkey⟩ | hbefore | hbefore
  · obtain rfl := Slot.eq_of_key_eq (String.toList_inj.mp hkey)
    exact ⟨rfl, rfl, List.append_cancel_left heq⟩
  · exact absurd ((List.suffix_append literal _).isInfix.trans hbefore.isInfix) (h' which)
  · exact absurd ((List.suffix_append literal' _).isInfix.trans hbefore.isInfix) (h which')

/-- There is only one way to take a template apart. -/
theorem eq_of_text_eq {parts parts' : Parts} (h : parts.Plain) (h' : parts'.Plain)
    (htext : parts.text = parts'.text) : parts = parts' := by
  have hslot : ∀ (literal : List Char) (which : Slot) (rest : Parts),
      ¬ Slotless (slot literal which rest).text := by
    intro literal which rest hfree
    exact hfree which ⟨literal, rest.text, rfl⟩
  induction parts generalizing parts' with
  | last literal =>
      cases parts' with
      | last literal' => exact congrArg last htext
      | slot literal' which' rest' =>
          refine absurd h (fun hfree => hslot literal' which' rest' ?_)
          rw [← htext]
          exact hfree
  | slot literal which rest ih =>
      cases parts' with
      | last literal' =>
          refine absurd h' (fun hfree => hslot literal which rest ?_)
          rw [htext]
          exact hfree
      | slot literal' which' rest' =>
          obtain ⟨rfl, rfl, hrest⟩ := eq_of_slotless h.1 h'.1 htext
          rw [ih h.2 h'.2 hrest]

/-- Filling the pieces of a template fills its parts. -/
theorem pieceFill_text {filling : Slot → List Char} {parts : Parts} (h : parts.Plain) :
    pieceFill filling parts.text = parts.fill filling := by
  induction parts with
  | last literal => exact pieceFill_of_slotless h
  | slot literal which rest ih =>
      show pieceFill filling (literal ++ which.written ++ rest.text) = _
      rw [pieceFill_amid, pieceFill_of_slotless h.1, ih h.2]
      rfl

end Parts

/-! ## Filling -/

/-- The text that fills a slot for a module name and the fields of its model. -/
def slotText (name : String) (fields : Option Model) (which : Slot) : List Char :=
  (which.filling (Spellings.of name) fields).toList

/-- What stands where a token stood: what fills its slot, or the token if its key is
    unknown. -/
def tokenText (filling : Slot → List Char) (key : List Char) : List Char :=
  match Slot.ofKey? (String.ofList key) with
  | some which => filling which
  | none => token key

theorem toList_fillTemplate (template name : String) (fields : Option Model) :
    (fillTemplate template name fields).toList
      = pieceFill (slotText name fields) template.toList := by
  rw [fillTemplate, String.toList_join, List.flatMap_map, pieceFill]
  congr 1
  funext piece
  cases piece with
  | literal c => exact String.toList_singleton c
  | slot which => rfl

/-- A token with an unknown key has no slot in it. -/
theorem slotless_token {key : List Char} (h : Braceless key)
    (hkey : Slot.ofKey? (String.ofList key) = none) : Slotless (token key) := by
  rintro which ⟨before, after, heq⟩
  have heq' : before ++ token which.key.toList ++ after = [] ++ token key ++ [] := by
    rw [List.append_nil]
    exact heq
  have hlength := congrArg List.length heq
  simp only [List.length_append] at hlength
  have hpos := which.length_written_pos
  rcases token_apart which.braceless h heq' with ⟨-, rfl⟩ | hbefore | hbefore
  · rw [String.ofList_toList, Slot.ofKey?_key] at hkey
    cases hkey
  · have hnil := hbefore.length_le
    rw [← Slot.written_eq_token, List.length_append, List.length_nil] at hnil
    omega
  · have hle := hbefore.length_le
    rw [List.nil_append] at hle
    omega

/-- Whatever stands around a token, it alone is replaced. -/
theorem pieceFill_token {filling : Slot → List Char} {key : List Char} (h : Braceless key)
    (front back : List Char) :
    pieceFill filling (front ++ token key ++ back)
      = pieceFill filling front ++ tokenText filling key ++ pieceFill filling back := by
  rw [tokenText]
  cases hkey : Slot.ofKey? (String.ofList key) with
  | some which => rw [← Slot.written_of_ofKey? hkey, pieceFill_amid]
  | none =>
      rw [List.append_assoc, pieceFill_append (cleanCut_before h),
        pieceFill_append (cleanCut_after h), pieceFill_of_slotless (slotless_token h hkey),
        List.append_assoc]

/-- Filling a template replaces its slots, all at once.

    Written slots never overlap, and a template is in one way only made up of slots
    and literal text without slots; filling keeps the literal text and puts each
    slot's filling in its place, which is nothing for the fields of no model or of
    an empty one.  So a token amid any text is replaced if its key is known and
    stays otherwise, a text without slots stays, and the two sides of a cut that no
    written slot straddles are filled apart.  Searching for braces comes to the same. -/
theorem fillTemplate_replaces_slots (template name : String) (fields : Option Model) :
    (∀ (which other : Slot) (before after before' after' : List Char),
      template.toList = before ++ which.written ++ after →
      template.toList = before' ++ other.written ++ after' →
      before = before' ∧ which = other ∨ before ++ which.written <+: before'
        ∨ before' ++ other.written <+: before)
    ∧ (∃ parts : Parts, parts.Plain ∧ parts.text = template.toList
      ∧ (∀ other : Parts, other.Plain → other.text = template.toList → other = parts)
      ∧ (fillTemplate template name fields).toList = parts.fill (slotText name fields))
    ∧ ((∀ model : Model, fields = some model → model.fields = []) →
      slotText name fields .fields = [])
    ∧ (∀ front key back : String, Braceless key.toList →
      template = front ++ String.ofList (token key.toList) ++ back →
      fillTemplate template name fields = fillTemplate front name fields
        ++ String.ofList (tokenText (slotText name fields) key.toList)
        ++ fillTemplate back name fields)
    ∧ (Slotless template.toList → fillTemplate template name fields = template)
    ∧ (∀ front back : String, CleanCut front.toList back.toList → template = front ++ back →
      fillTemplate template name fields
        = fillTemplate front name fields ++ fillTemplate back name fields)
    ∧ (fillTemplate template name fields).toList
        = searchFill (slotText name fields) template.toList := by
  refine ⟨?_, ?_, ?_, ?_, ?_, ?_, ?_⟩
  · intro which other before after before' after' h h'
    rcases token_apart which.braceless other.braceless (h.symm.trans h')
      with ⟨hbefore, hkey⟩ | hbefore | hbefore
    · exact Or.inl ⟨hbefore, Slot.eq_of_key_eq (String.toList_inj.mp hkey)⟩
    · exact Or.inr (Or.inl hbefore)
    · exact Or.inr (Or.inr hbefore)
  · obtain ⟨parts, hplain, htext⟩ := Parts.exists_plain template.toList
    refine ⟨parts, hplain, htext, fun other hother hsame => ?_, ?_⟩
    · exact Parts.eq_of_text_eq hother hplain (hsame.trans htext.symm)
    · rw [toList_fillTemplate, ← htext, Parts.pieceFill_text hplain]
  · intro hnone
    cases fields with
    | none => rfl
    | some model =>
        rw [slotText, Slot.filling, TypeScript.members, hnone model rfl]
        rfl
  · rintro front key back hkey rfl
    apply String.toList_inj.mp
    simp only [String.toList_append, toList_fillTemplate, String.toList_ofList,
      pieceFill_token hkey]
  · intro hfree
    apply String.toList_inj.mp
    rw [toList_fillTemplate, pieceFill_of_slotless hfree]
  · rintro front back hcut rfl
    apply String.toList_inj.mp
    simp only [String.toList_append, toList_fillTemplate, pieceFill_append hcut]
  · rw [toList_fillTemplate, searchFill_eq]

/-- One brace too many on either side of a slot stays, so do an unknown key and a token
    that is not closed; what looks like a slot in the name is not one. -/
theorem fillTemplate_braces :
    fillTemplate "\x7b\x7b\x7bModel\x7d\x7d\x7d \x7b\x7bkey\x7d\x7d \x7b\x7bmodel"
        "my \x7b\x7bmodel\x7d\x7d" none
      = "\x7bMy\x7b\x7bModel\x7d\x7d\x7d \x7b\x7bkey\x7d\x7d \x7b\x7bmodel" := by
  have hfront := (fillTemplate_replaces_slots "\x7b" "my \x7b\x7bmodel\x7d\x7d" none).2.2.2.2.1
    (by decide +kernel)
  have hback := (fillTemplate_replaces_slots "\x7d \x7b\x7bkey\x7d\x7d \x7b\x7bmodel"
    "my \x7b\x7bmodel\x7d\x7d" none).2.2.2.2.1 (by decide +kernel)
  rw [(fillTemplate_replaces_slots _ _ _).2.2.2.1 "\x7b" "Model"
    "\x7d \x7b\x7bkey\x7d\x7d \x7b\x7bmodel" (by decide +kernel) (by decide +kernel), hfront, hback]
  decide +kernel

end Stencil
