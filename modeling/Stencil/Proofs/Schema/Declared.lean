import Stencil.Proofs.Schema.Blueprint
import Stencil.Proofs.Schema.FieldTypes
import Stencil.Proofs.Schema.Shapes
import Stencil.Proofs.Schema.TokenParts

/-! # What the entries of a body declare

    The tokens of the entries of a model declare the fields of these entries, in
    order, and no other ones; the tokens of the entries of an enum declare its
    values (`ofTokens_modelTokens`, `ofTokens_enumTokens`). -/

namespace Stencil.Schema

open Stencil.Text (isBlank)

/-! ## Tokens of entries -/

/-- A name character is plain. -/
theorem isPlain_of_isNameChar {c : Char} (h : isNameChar c = true) : isPlain c = true := by
  have hne : ∀ d : Char, isNameChar d = false → c ≠ d := by
    rintro d hd rfl
    exact absurd (hd.symm.trans h) Bool.false_ne_true
  have hblank : isBlank c = false := by
    rw [isBlank, decide_eq_false (hne ' ' (by decide)), decide_eq_false (hne '\t' (by decide)),
      decide_eq_false (hne '\n' (by decide)), decide_eq_false (hne '\x0c' (by decide)),
      decide_eq_false (hne '\r' (by decide))]
    rfl
  have hopening : TokenScan.isOpening c = false := by
    rw [TokenScan.isOpening, decide_eq_false (hne '(' (by decide)),
      decide_eq_false (hne '[' (by decide)), decide_eq_false (hne '{' (by decide))]
    rfl
  have hclosing : TokenScan.isClosing c = false := by
    rw [TokenScan.isClosing, decide_eq_false (hne ')' (by decide)),
      decide_eq_false (hne ']' (by decide)), decide_eq_false (hne '}' (by decide))]
    rfl
  rw [isPlain, hblank, hopening, hclosing, decide_eq_true (hne '"' (by decide)),
    decide_eq_true (hne '@' (by decide)), decide_eq_true (hne '/' (by decide))]
  rfl

theorem Solid.isToken {cs : List Char} (h : Solid cs) (hne : cs ≠ []) : IsToken cs :=
  ⟨[], cs, Or.inl rfl, hne, h, rfl⟩

namespace Blueprint

theorem Name.solid (name : Name) : Solid name.letters :=
  Solid.of_plain fun c hc => isPlain_of_isNameChar (name.wellFormed.2 c hc)

theorem Name.head (name : Name) :
    ∃ c rest, name.letters = c :: rest ∧ isNameChar c = true := by
  obtain ⟨c, rest, h⟩ := List.exists_cons_of_ne_nil name.wellFormed.1
  exact ⟨c, rest, h, name.wellFormed.2 c (h ▸ List.mem_cons_self ..)⟩

theorem Name.isToken (name : Name) : IsToken name.letters :=
  name.solid.isToken name.wellFormed.1

/-- A type as it is written is solid. -/
theorem TypeToken.solid (t : TypeToken) : Solid t.chars := by
  have hmarks : Solid (List.replicate t.marks '?') := by
    refine Solid.of_plain fun c hc => ?_
    rw [(List.mem_replicate.mp hc).2]
    decide
  have hbase : Solid t.base := by
    rw [base]
    cases t.run with
    | none => exact t.name.solid.append Solid.nil
    | some run => exact t.name.solid.append (Solid.group run.shape run.nested Solid.nil)
  exact hbase.append hmarks

theorem TypeToken.head (t : TypeToken) :
    ∃ c rest, t.chars = c :: rest ∧ isNameChar c = true := by
  obtain ⟨c, rest, hletters, hc⟩ := t.name.head
  rw [chars, base, hletters, List.append_assoc, List.cons_append]
  exact ⟨c, _, rfl, hc⟩

theorem TypeToken.isToken (t : TypeToken) : IsToken t.chars := by
  obtain ⟨c, rest, h, -⟩ := t.head
  exact t.solid.isToken (h ▸ List.cons_ne_nil c rest)

/-- An attribute is an at sign, a plain character, and a solid rest. -/
theorem Attribute.chars_eq (a : Attribute) :
    ∃ c rest, a.chars = '@' :: c :: rest ∧ isPlain c = true ∧ Solid (c :: rest) := by
  obtain ⟨c, word, hword⟩ := List.exists_cons_of_ne_nil a.wellFormed.1
  have hsolid : Solid a.word := Solid.of_plain a.wellFormed.2
  have hc : isPlain c = true := a.wellFormed.2 c (hword ▸ List.mem_cons_self ..)
  rw [chars, hword]
  rw [hword] at hsolid
  cases harguments : a.arguments with
  | none =>
      have hall := hsolid.append Solid.nil
      rw [List.cons_append] at hall
      exact ⟨c, word ++ [], rfl, hc, hall⟩
  | some inside =>
      have hnested : Nested inside := a.nested inside (harguments ▸ rfl)
      have hall := hsolid.append (Solid.group .round hnested Solid.nil)
      rw [List.cons_append] at hall
      exact ⟨c, word ++ '(' :: (inside ++ [')']), rfl, hc, hall⟩

theorem Attribute.isToken (a : Attribute) : IsToken a.chars := by
  obtain ⟨c, rest, h, -, hsolid⟩ := a.chars_eq
  exact ⟨['@'], c :: rest, Or.inr (Or.inl rfl), List.cons_ne_nil c rest, hsolid, h⟩

theorem Attribute.isToken_whole (a : Attribute) : IsToken ('@' :: a.chars) := by
  obtain ⟨c, rest, h, -, hsolid⟩ := a.chars_eq
  exact ⟨['@', '@'], c :: rest, Or.inr (Or.inr rfl), List.cons_ne_nil c rest, hsolid,
    congrArg _ h⟩

/-- The tokens of an entry are tokens. -/
theorem Entry.isToken {entry : Entry} {token : List Char} (h : token ∈ entry.tokens) :
    IsToken token := by
  cases entry with
  | field name type attributes =>
      rcases List.mem_cons.mp h with rfl | h
      · exact name.isToken
      · rcases List.mem_cons.mp h with rfl | h
        · exact type.isToken
        · obtain ⟨a, -, rfl⟩ := List.mem_map.mp h
          exact a.isToken
  | whole a =>
      rw [List.mem_singleton.mp h]
      exact a.isToken_whole

theorem EnumEntry.isToken (entry : EnumEntry) : IsToken entry.token := by
  cases entry with
  | value name => exact name.isToken
  | attached a => exact a.isToken
  | whole a => exact a.isToken_whole

/-! ## Kinds of tokens -/

/-- A token that starts with a name character is neither an attribute nor
    braced. -/
theorem isAttribute_of_name {c : Char} {rest : List Char} (hc : isNameChar c = true) :
    isAttribute (String.ofList (c :: rest)) = false
      ∧ isBraced (String.ofList (c :: rest)) = false := by
  rw [isAttribute, isBraced, String.toList_ofList]
  refine ⟨decide_eq_false ?_, decide_eq_false ?_⟩
  · intro h
    cases Option.some.inj h
    exact absurd hc (by decide)
  · intro h
    cases Option.some.inj h
    exact absurd hc (by decide)

theorem Name.isAttribute (name : Name) :
    Schema.isAttribute (String.ofList name.letters) = false
      ∧ isBraced (String.ofList name.letters) = false := by
  obtain ⟨c, rest, hletters, hc⟩ := name.head
  rw [hletters]
  exact isAttribute_of_name hc

theorem TypeToken.isAttribute (t : TypeToken) :
    Schema.isAttribute (String.ofList t.chars) = false
      ∧ isBraced (String.ofList t.chars) = false := by
  obtain ⟨c, rest, hchars, hc⟩ := t.head
  rw [hchars]
  exact isAttribute_of_name hc

theorem isAttribute_at (rest : List Char) :
    isAttribute (String.ofList ('@' :: rest)) = true := by
  rw [isAttribute, String.toList_ofList]
  rfl

/-- An attribute is one of a field. -/
theorem Attribute.isAttribute (a : Attribute) :
    Schema.isAttribute (String.ofList a.chars) = true
      ∧ isBlockAttribute (String.ofList a.chars) = false := by
  obtain ⟨c, rest, h, hc, -⟩ := a.chars_eq
  rw [h, isBlockAttribute, String.toList_ofList]
  refine ⟨isAttribute_at _, ?_⟩
  show (('@' == '@') && (('@' == c) && true)) = false
  rw [beq_false_of_ne (Ne.symm (isPlain_ne hc).2.1)]
  rfl

theorem Attribute.isBlockAttribute_whole (a : Attribute) :
    Schema.isAttribute (String.ofList ('@' :: a.chars)) = true
      ∧ isBlockAttribute (String.ofList ('@' :: a.chars)) = true := by
  obtain ⟨c, rest, h, -, -⟩ := a.chars_eq
  rw [h, isBlockAttribute, String.toList_ofList]
  exact ⟨isAttribute_at _, rfl⟩

/-! ## Declarations -/

/-- The texts of the tokens of some entries. -/
def modelTokens (entries : List Entry) : List String :=
  (entries.flatMap Entry.tokens).map String.ofList

/-- The tokens of entries open with no attribute of a field. -/
theorem head?_modelTokens (entries : List Entry) :
    ∀ token ∈ (modelTokens entries).head?, isFieldAttribute token = false := by
  intro token hmem
  cases entries with
  | nil => cases hmem
  | cons entry entries =>
      cases entry with
      | field name type attributes =>
          obtain rfl : String.ofList name.letters = token := Option.some.inj hmem
          rw [isFieldAttribute, name.isAttribute.1]
          rfl
      | whole a =>
          obtain rfl : String.ofList ('@' :: a.chars) = token := Option.some.inj hmem
          rw [isFieldAttribute, a.isBlockAttribute_whole.1, a.isBlockAttribute_whole.2]
          rfl

/-- What an entry of a model declares. -/
def Entry.declaration? : Entry → Option Declaration
  | .field name type attributes =>
      some ⟨name.text, String.ofList type.chars,
        attributes.map fun a => String.ofList a.chars⟩
  | .whole _ => none

/-- The tokens of an entry are read as its declaration, whatever entries follow. -/
theorem Entry.standsBefore (entry : Entry) {d : Declaration} (h : entry.declaration? = some d)
    (entries : List Entry) : d.StandsBefore (modelTokens entries) := by
  cases entry with
  | field name type attributes =>
      cases h
      refine ⟨Bool.or_eq_false_iff.mpr name.isAttribute, Bool.or_eq_false_iff.mpr type.isAttribute,
        ?_, head?_modelTokens entries⟩
      intro token hmem
      obtain ⟨a, -, rfl⟩ := List.mem_map.mp hmem
      rw [isFieldAttribute, a.isAttribute.1, a.isAttribute.2]
      rfl
  | whole a => cases h

/-- The declarations in the tokens of some entries are those of the entries. -/
theorem declarations_modelTokens (entries : List Entry) :
    declarations (modelTokens entries) = entries.filterMap Entry.declaration? := by
  induction entries with
  | nil => rfl
  | cons entry entries ih =>
      cases entry with
      | field name type attributes =>
          let d : Declaration :=
            ⟨name.text, String.ofList type.chars, attributes.map fun a => String.ofList a.chars⟩
          have htokens : modelTokens (.field name type attributes :: entries)
              = d.written ++ modelTokens entries := by
            rw [modelTokens, List.flatMap_cons, List.map_append, Entry.tokens, List.map_cons,
              List.map_cons, List.map_map]
            rfl
          have hstands : d.StandsBefore (modelTokens entries) :=
            (Entry.field name type attributes).standsBefore rfl entries
          rw [htokens, hstands.declarations_written, ih]
          rfl
      | whole a =>
          have hpassed : isPassedOver (String.ofList ('@' :: a.chars)) = true :=
            Bool.or_eq_true_iff.mpr (Or.inl a.isBlockAttribute_whole.1)
          show declarations (String.ofList ('@' :: a.chars) :: modelTokens entries) = _
          rw [declarations_passedOver hpassed, ih]
          rfl

/-! ## Relations -/

/-- The mark of relations is the beginning of a relation attribute, or quoted. -/
theorem Attribute.occursIn_chars (a : Attribute) :
    Text.occursIn "@relation(".toList a.chars = (a.isRelation || a.quotesRelation) := by
  have hword : ∀ c ∈ a.word, c ≠ '@' ∧ c ≠ '(' := by
    intro c hc
    obtain ⟨-, hat, -, hopening, -⟩ := isPlain_ne (a.wellFormed.2 c hc)
    refine ⟨hat, ?_⟩
    rintro rfl
    exact absurd hopening (by decide)
  have hround : '(' ∉ '@' :: a.word := by
    intro hmem
    rcases List.mem_cons.mp hmem with h | h
    · exact absurd h (by decide)
    · exact (hword '(' h).2 rfl
  rw [Bool.eq_iff_iff, Bool.or_eq_true, isRelation, quotesRelation, chars]
  cases a.arguments with
  | none =>
      -- without arguments there is no parenthesis
      rw [List.append_nil, Option.isSome_none, Bool.and_false]
      refine ⟨fun h => absurd ?_ hround, by rintro (h | h) <;> cases h⟩
      exact (Text.occursIn_iff.mp h).subset (by decide)
  | some inside =>
      have hsuffix : "@relation".toList <:+ '@' :: a.word ↔ a.word = "relation".toList := by
        rw [List.suffix_cons_iff]
        constructor
        · rintro (h | h)
          · exact (List.cons.inj h).2.symm
          · exact absurd rfl (hword '@' (h.subset (by decide))).1
        · intro h
          exact Or.inl (by rw [h]; rfl)
      have hlast : Text.occursIn "@relation(".toList (inside ++ [')'])
          = Text.occursIn "@relation(".toList inside := by
        rw [Text.occursIn_append_cons (by decide) (by decide)]
        exact Bool.or_false _
      show Text.occursIn ("@relation".toList ++ ['(']) (('@' :: a.word) ++ '(' :: _) = true ↔ _
      rw [Text.occursIn_concat (by decide) hround, hsuffix]
      show _ ∨ Text.occursIn "@relation(".toList _ = true ↔ _
      rw [hlast, Option.isSome_some, Bool.and_true, decide_eq_true_iff]

/-! ## Models and enums -/

theorem TypeToken.ofToken_chars (t : TypeToken) :
    FieldType.ofToken (String.ofList t.chars) = t.fieldType := by
  obtain ⟨hbase, hoptional⟩ := FieldType.ofToken_marked t.getLast?_base t.marks
  exact FieldType.ext hbase hoptional

/-- A declaration counts as a relation if one of the attributes of the entry is one or
    quotes the mark. -/
theorem isRelation_declaration (name : Name) (type : TypeToken) (attributes : List Attribute) :
    Declaration.isRelation ⟨name.text, String.ofList type.chars,
        attributes.map fun a => String.ofList a.chars⟩
      = ((Entry.field name type attributes).isRelation
        || (Entry.field name type attributes).quotesRelation) := by
  rw [Declaration.isRelation, List.any_map, Entry.isRelation, Entry.quotesRelation]
  show (attributes.any fun a => Text.occursIn _ (String.ofList a.chars).toList) = _
  induction attributes with
  | nil => rfl
  | cons a attributes ih =>
      rw [List.any_cons, List.any_cons, List.any_cons, ih, String.toList_ofList (l := a.chars),
        a.occursIn_chars]
      ac_rfl

/-- The scalar fields among the declarations of some entries. -/
theorem scalars_eq (entries : List Entry) :
    (((entries.filterMap Entry.declaration?).filter fun d => !d.isRelation).map fun d =>
      (d.name, FieldType.ofToken d.type)) = scalars entries := by
  induction entries with
  | nil => rfl
  | cons entry entries ih =>
      cases entry with
      | field name type attributes =>
          rw [List.filterMap_cons]
          show (((⟨_, _, _⟩ : Declaration) :: _).filter _).map _ = _
          rw [List.filter_cons, isRelation_declaration, scalars, List.filterMap_cons,
            Entry.scalar?]
          cases (Entry.field name type attributes).isRelation
              || (Entry.field name type attributes).quotesRelation with
          | true =>
              rw [Bool.not_true, if_neg Bool.false_ne_true, if_pos rfl]
              exact ih
          | false =>
              rw [Bool.not_false, if_pos rfl, if_neg Bool.false_ne_true, List.map_cons, ih,
                type.ofToken_chars]
              rfl
      | whole a => exact ih

/-- The tokens of the entries of a model declare the model. -/
theorem ofTokens_modelTokens (entries : List Entry) :
    Model.ofTokens (modelTokens entries) = modelOf entries := by
  rw [Model.ofTokens, declarations_modelTokens, Model.ofList_eq, List.map_map, modelOf,
    ← scalars_eq]
  rfl

/-- The tokens of the entries of an enum declare the enum. -/
theorem ofTokens_enumTokens (name : Name) (entries : List EnumEntry) :
    Enum.ofTokens name.text ((entries.map EnumEntry.token).map String.ofList)
      = enumOf name entries := by
  have hvalues : (((entries.map EnumEntry.token).map String.ofList).filter fun token =>
      !Schema.isAttribute token) = entries.filterMap EnumEntry.value? := by
    induction entries with
    | nil => rfl
    | cons entry entries ih =>
        rw [List.map_cons, List.map_cons, List.filter_cons]
        cases entry with
        | value name =>
            rw [EnumEntry.token, name.isAttribute.1, Bool.not_false, if_pos rfl, ih]
            rfl
        | attached a =>
            rw [EnumEntry.token, a.isAttribute.1, Bool.not_true, if_neg Bool.false_ne_true, ih]
            rfl
        | whole a =>
            rw [EnumEntry.token, a.isBlockAttribute_whole.1, Bool.not_true,
              if_neg Bool.false_ne_true, ih]
            rfl
  rw [Enum.ofTokens, hvalues, enumOf]

end Blueprint

end Stencil.Schema
