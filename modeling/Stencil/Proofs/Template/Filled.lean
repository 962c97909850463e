import Stencil.Proofs.Ordered
import Stencil.Proofs.Schema.Blueprint
import Stencil.Template.Fill

/-! # Filled templates

    What filling a template means, said without the pieces it is read as: slots
    become what fills them, all other characters stay (`Filled`).  Filling does
    just that (`filled_fillTemplate`).

    The slot of the fields becomes one line for each field among the entries that
    declare the model, relations left out (`toList_members_modelOf`). -/

namespace Stencil

open Schema (Model)

/-! ## Slots and the rest -/

/-- Whether a text is a template with every slot filled in, slots told from left to
    right. -/
inductive Filled (filling : Slot → List Char) : List Char → List Char → Prop where
  | nil : Filled filling [] []
  | slot (which : Slot) {rest filled : List Char} :
      Filled filling rest filled →
      Filled filling (which.written ++ rest) (filling which ++ filled)
  | literal {c : Char} {rest filled : List Char} :
      (∀ slot : Slot, ¬ slot.written <+: c :: rest) → Filled filling rest filled →
      Filled filling (c :: rest) (c :: filled)

theorem Slot.mem_all (slot : Slot) : slot ∈ Slot.all := by
  cases slot <;> decide

/-- The pieces of a template, each made what becomes of it, fill the template. -/
theorem filled_pieces (filling : Slot → String) (template : List Char) :
    Filled (fun slot => (filling slot).toList) template
      ((Piece.split template).flatMap fun piece => (piece.fill filling).toList) := by
  fun_induction Piece.split template with
  | case1 => exact Filled.nil
  | case2 c rest found hfound ih =>
      -- a slot stands here, and the rest begins after it
      have hfirst : found.written.isPrefixOf (c :: rest) = true := by
        have hsome := List.find?_some hfound
        exact hsome
      obtain ⟨tail, htail⟩ := List.isPrefixOf_iff_prefix.mp hfirst
      rw [← htail, List.drop_left] at ih ⊢
      rw [List.flatMap_cons]
      exact Filled.slot found ih
  | case3 c rest hnone ih =>
      rw [List.flatMap_cons, Piece.fill, String.toList_singleton]
      refine Filled.literal (fun slot hfirst => ?_) ih
      have hslot := List.find?_eq_none.mp hnone slot slot.mem_all
      exact hslot (List.isPrefixOf_iff_prefix.mpr hfirst)

/-- A template is filled in as its slots say. -/
theorem filled_fillTemplate (template name : String) (fields : Option Model) :
    Filled (fun slot => (slot.filling (Spellings.of name) fields).toList) template.toList
      (fillTemplate template name fields).toList := by
  rw [fillTemplate, String.toList_join, List.flatMap_map]
  exact filled_pieces _ _

/-- A template begins as the filled one, unless it begins with a slot. -/
theorem head?_fillTemplate {template : String} {c : Char}
    (h : template.toList.head? = some c) (hc : c ≠ '\x7b') (name : String)
    (fields : Option Model) : (fillTemplate template name fields).toList.head? = some c := by
  have hfilled := filled_fillTemplate template name fields
  obtain ⟨rest, hrest⟩ := List.head?_eq_some_iff.mp h
  generalize (fillTemplate template name fields).toList = filled at hfilled ⊢
  generalize template.toList = cs at hfilled hrest
  cases hfilled with
  | nil => cases hrest
  | literal _ _ =>
      cases hrest
      rfl
  | slot which _ =>
      -- a slot begins with a brace
      rw [Slot.written] at hrest
      exact absurd (List.cons.inj hrest).1.symm hc

end Stencil

namespace Stencil.Schema.Blueprint

open Stencil.TypeScript (typeName)

/-! ## Lines of fields -/

/-- The line for an entry: two spaces, the name of the field, a question mark if its type
    has one, the type; nothing for a relation or an attribute of the model. -/
def Entry.line (entry : Entry) : List Char :=
  match entry with
  | .field name type _ =>
      if entry.isRelation then []
      else "  ".toList ++ name.letters ++ (if type.marks = 0 then [] else ['?']) ++ ": ".toList
        ++ (typeName (String.ofList type.base)).toList ++ ";\n".toList
  | .whole _ => []

/-- Only a field that is no relation is a scalar field. -/
theorem Entry.of_scalar? {entry : Entry} {name : String} {type : FieldType}
    (h : entry.scalar? = some (name, type)) :
    ∃ (fieldName : Name) (token : TypeToken) (attributes : List Attribute),
      entry = .field fieldName token attributes ∧ ¬ entry.isRelation = true
        ∧ name = fieldName.text ∧ type = token.fieldType := by
  cases entry with
  | whole a => cases h
  | field fieldName token attributes =>
      rw [Entry.scalar?] at h
      by_cases hleft : ((Entry.field fieldName token attributes).isRelation
          || (Entry.field fieldName token attributes).quotesRelation) = true
      · rw [if_pos hleft] at h
        cases h
      · rw [if_neg hleft] at h
        cases h
        exact ⟨fieldName, token, attributes, rfl,
          fun hrelation => hleft (Bool.or_eq_true_iff.mpr (Or.inl hrelation)), rfl, rfl⟩

/-- The member for the scalar field of an entry is its line. -/
theorem Entry.toList_member {entry : Entry} {name : String} {type : FieldType}
    (h : entry.scalar? = some (name, type)) :
    (TypeScript.member ⟨name, type⟩).toList = entry.line := by
  obtain ⟨fieldName, token, attributes, rfl, hrelation, rfl, rfl⟩ := Entry.of_scalar? h
  have hmark : (if token.fieldType.optional = true then "?" else "").toList
      = if token.marks = 0 then [] else ['?'] := by
    show (if (token.marks != 0) = true then "?" else "").toList = _
    by_cases hzero : token.marks = 0
    · rw [hzero]
      rfl
    · rw [if_neg hzero, if_pos (bne_iff_ne.mpr hzero)]
      rfl
  rw [Entry.line, if_neg hrelation, TypeScript.member]
  simp only [String.toList_append, hmark, Name.text, String.toList_ofList]
  rfl

/-- An entry without a scalar field has no line, if only relations quote the mark of
    relations. -/
theorem Entry.line_eq_nil {entry : Entry}
    (hquotes : entry.quotesRelation = true → entry.isRelation = true)
    (h : entry.scalar? = none) : entry.line = [] := by
  cases entry with
  | whole a => rfl
  | field name type attributes =>
      rw [Entry.scalar?] at h
      rw [Entry.line]
      by_cases hleft : ((Entry.field name type attributes).isRelation
          || (Entry.field name type attributes).quotesRelation) = true
      · rw [if_pos ((Bool.or_eq_true_iff.mp hleft).elim id hquotes)]
      · rw [if_neg hleft] at h
        cases h

/-- Scalar fields are among the fields. -/
theorem Entry.fieldName?_of_scalar? {entry : Entry} {name : String} {type : FieldType}
    (h : entry.scalar? = some (name, type)) : entry.fieldName? = some name := by
  obtain ⟨fieldName, token, attributes, rfl, -, rfl, -⟩ := Entry.of_scalar? h
  rfl

/-- The names of the scalar fields are some of the names of the fields, in
    order. -/
theorem keys_scalars_sublist (entries : List Entry) :
    ((scalars entries).map Prod.fst).Sublist (entries.filterMap Entry.fieldName?) := by
  induction entries with
  | nil => exact List.Sublist.refl _
  | cons entry entries ih =>
      rw [scalars, List.filterMap_cons, List.filterMap_cons]
      cases hscalar : entry.scalar? with
      | none =>
          cases entry.fieldName? with
          | none => exact ih
          | some name => exact ih.cons _
      | some pair =>
          rw [Entry.fieldName?_of_scalar? hscalar]
          exact ih.cons_cons _

/-- The members for the model of some entries are the lines of the entries, if no name is
    declared twice and only relations quote the mark of relations. -/
theorem toList_members_modelOf {entries : List Entry}
    (h : (entries.filterMap Entry.fieldName?).Nodup)
    (hquotes : ∀ entry ∈ entries, entry.quotesRelation = true → entry.isRelation = true) :
    (TypeScript.members (modelOf entries)).toList = entries.flatMap Entry.line := by
  have hfields : (modelOf entries).fields
      = (scalars entries).map fun pair => ⟨pair.1, pair.2⟩ := by
    rw [modelOf, Model.fields, Ordered.toList_ofList (h.sublist (keys_scalars_sublist entries))]
  rw [TypeScript.members, hfields, String.toList_join, List.flatMap_map, List.flatMap_map]
  clear h hfields
  induction entries with
  | nil => rfl
  | cons entry entries ih =>
      rw [scalars, List.filterMap_cons, List.flatMap_cons]
      cases hscalar : entry.scalar? with
      | none =>
          rw [Entry.line_eq_nil (hquotes entry (List.mem_cons_self ..)) hscalar]
          exact ih fun other hmem => hquotes other (List.mem_cons_of_mem _ hmem)
      | some pair =>
          rw [← Entry.toList_member hscalar]
          exact congrArg (_ ++ ·) (ih fun other hmem =>
            hquotes other (List.mem_cons_of_mem _ hmem))

end Stencil.Schema.Blueprint
