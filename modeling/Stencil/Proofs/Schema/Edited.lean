import Stencil.Proofs.Schema.WellFormed

/-! # Models under changes

    A model is changed in two ways: a field is declared, or the model is made anew from
    pairs of names and type tokens.  Whatever has been done to it, a model is the one made
    of the pairs given since it was last made anew (`edited_eq_ofList`).  So it has the
    names of these pairs in the order in which they first come up, and of each name the
    last type, with one question mark for any number of them (`Model.Declares`).

    Nothing of a model is lost in its written form: read again, pair by pair, it is the
    same model (`Model.ReadsBack`).  The payoff is `edited_declares_last`. -/

namespace Stencil.Schema

/-! ## Question marks -/

/-- Whether a written type is what a type token comes to: its base, and one question mark
    for any number of them. -/
def Collapses (token written : String) : Prop :=
  ∃ (base : List Char) (marks : Nat), base.getLast? ≠ some '?'
    ∧ token.toList = base ++ List.replicate marks '?'
    ∧ written.toList = base ++ List.replicate (min marks 1) '?'

/-- A text is what is left of it when its last characters are stripped, and these. -/
theorem exists_stripped (c : Char) (cs : List Char) :
    ∃ n : Nat, cs = Text.stripTrailing c cs ++ List.replicate n c := by
  have hcopies : cs.reverse.takeWhile (· = c)
      = List.replicate (cs.reverse.takeWhile (· = c)).length c := by
    refine List.eq_replicate_iff.mpr ⟨rfl, fun d hd => ?_⟩
    exact of_decide_eq_true (List.mem_takeWhile_imp (p := fun d : Char => decide (d = c)) hd)
  refine ⟨(cs.reverse.takeWhile (· = c)).length, List.reverse_injective ?_⟩
  rw [List.reverse_append, List.reverse_replicate, Text.stripTrailing, List.reverse_reverse,
    ← hcopies, List.takeWhile_append_dropWhile]

namespace FieldType

/-- The written form, the question mark as a copy of it. -/
theorem toList_text (t : FieldType) :
    t.text.toList = t.base.toList ++ List.replicate t.optional.toNat '?' := by
  rw [text]
  cases t.optional with
  | true => exact String.toList_append ..
  | false => exact (List.append_nil _).symm

/-- The written form has one question mark for any number of them. -/
theorem toList_text_marked {base : List Char} (h : base.getLast? ≠ some '?') (marks : Nat) :
    (ofToken (String.ofList (base ++ List.replicate marks '?'))).text.toList
      = base ++ List.replicate (min marks 1) '?' := by
  obtain ⟨hbase, hoptional⟩ := ofToken_marked h marks
  rw [toList_text, hbase, hoptional, String.toList_ofList]
  cases marks with
  | zero => rfl
  | succ n => rw [Nat.min_eq_right (Nat.le_add_left 1 n)]; rfl

theorem collapses_ofToken (token : String) : Collapses token (ofToken token).text := by
  obtain ⟨marks, htoken⟩ := exists_stripped '?' token.toList
  have hunmarked := Text.getLast?_stripTrailing '?' token.toList
  have hwritten := toList_text_marked hunmarked marks
  rw [← htoken, String.ofList_toList] at hwritten
  exact ⟨_, marks, hunmarked, htoken, hwritten⟩

end FieldType

/-- A token comes to one written type only. -/
theorem Collapses.eq_text {token written : String} (h : Collapses token written) :
    written = (FieldType.ofToken token).text := by
  obtain ⟨base, marks, hunmarked, htoken, hwritten⟩ := h
  apply String.toList_injective
  rw [hwritten, ← FieldType.toList_text_marked hunmarked marks, ← htoken, String.ofList_toList]

/-! ## Changes -/

/-- A change of a model. -/
inductive Edit where
  /-- Declares a field. -/
  | insert (name token : String)
  /-- Makes the model anew. -/
  | collect (pairs : List (String × String))
deriving DecidableEq, Repr

/-- The model after a change. -/
def Edit.apply (m : Model) : Edit → Model
  | .insert name token => m.insert name token
  | .collect pairs => Model.ofList pairs

/-- The pairs given since the model was last made anew, after a change. -/
def Edit.record (given : List (String × String)) : Edit → List (String × String)
  | .insert name token => given ++ [(name, token)]
  | .collect pairs => pairs

/-- The model after changes of the one without fields. -/
def edited (edits : List Edit) : Model :=
  edits.foldl Edit.apply Model.empty

/-- The pairs given since the last time that changes made a model anew. -/
def given (edits : List Edit) : List (String × String) :=
  edits.foldl Edit.record []

/-- A change keeps to the model made of the pairs given. -/
theorem Edit.apply_ofList (pairs : List (String × String)) (edit : Edit) :
    edit.apply (Model.ofList pairs) = Model.ofList (edit.record pairs) := by
  cases edit with
  | insert name token =>
      rw [record, Model.ofList, Model.ofList, List.foldl_append]
      rfl
  | collect pairs => rfl

/-- A model is made of the pairs given since it was last made anew. -/
theorem edited_eq_ofList (edits : List Edit) : edited edits = Model.ofList (given edits) := by
  have hgen : ∀ pairs : List (String × String), edits.foldl Edit.apply (Model.ofList pairs)
      = Model.ofList (edits.foldl Edit.record pairs) := by
    induction edits with
    | nil => exact fun pairs => rfl
    | cons edit edits ih =>
        intro pairs
        rw [List.foldl_cons, edit.apply_ofList, ih]
        rfl
  exact hgen []

/-! ## What a model declares -/

/-- Whether a model declares what pairs of names and type tokens do: of each name the last
    type, in the order in which the names first come up. -/
structure Model.Declares (m : Model) (pairs : List (String × String)) : Prop where
  present : ∀ name : String, (m.get? name).isSome = true ↔ name ∈ pairs.map Prod.fst
  last : ∀ name written : String, m.get? name = some written
    ↔ ∃ (earlier later : List (String × String)) (token : String),
      pairs = earlier ++ (name, token) :: later ∧ name ∉ later.map Prod.fst
        ∧ Collapses token written
  names : m.fields.map Field.name = (pairs.map Prod.fst).eraseDups
  nodup : (m.fields.map Field.name).Nodup
  size : m.size = (pairs.map Prod.fst).toFinset.card

theorem Model.names_fields (m : Model) : m.fields.map Field.name = m.types.keys :=
  List.map_map

/-- The model made of pairs declares what they do. -/
theorem Model.declares_ofList (pairs : List (String × String)) :
    (Model.ofList pairs).Declares pairs := by
  have hfst : (pairs.map fun pair => (pair.1, FieldType.ofToken pair.2)).map Prod.fst
      = pairs.map Prod.fst := List.map_map
  rw [Model.ofList_eq]
  refine ⟨?_, ?_, ?_, ?_, ?_⟩
  · intro name
    rw [Model.get?, Option.isSome_map, Option.isSome_iff_exists, ← Ordered.mem_keys_iff,
      Ordered.mem_keys_ofList, hfst]
  · intro name written
    rw [Model.get?, Option.map_eq_some_iff]
    constructor
    · rintro ⟨t, hget, rfl⟩
      obtain ⟨before, after, hpairs, hlast⟩ := Ordered.get?_ofList_eq_some_iff.mp hget
      obtain ⟨earlier, rest, rfl, -, hrest⟩ := List.map_eq_append_iff.mp hpairs
      obtain ⟨⟨key, token⟩, later, rfl, heq, rfl⟩ := List.map_eq_cons_iff.mp hrest
      obtain ⟨rfl, rfl⟩ := Prod.mk.inj heq
      rw [List.map_map] at hlast
      exact ⟨earlier, later, token, rfl, hlast, FieldType.collapses_ofToken token⟩
    · rintro ⟨earlier, later, token, rfl, hlast, hcollapses⟩
      refine ⟨FieldType.ofToken token, ?_, hcollapses.eq_text.symm⟩
      rw [List.map_append, List.map_cons]
      refine Ordered.get?_ofList_append _ _ ?_
      rwa [List.map_map]
  · rw [Model.names_fields, Ordered.keys_ofList, hfst]
  · rw [Model.names_fields]
    exact Ordered.nodup_keys _
  · rw [Model.size, size_ofList, hfst]

/-! ## Reading a model again -/

/-- The written type of a field: its base, and a question mark if it is optional. -/
def Field.written (f : Field) : String :=
  f.type.base ++ if f.type.optional then "?" else ""

/-- Whether a model is the same when it is read again from what is written of it: type by
    type, and pair by pair. -/
structure Model.ReadsBack (m : Model) : Prop where
  /-- The fields are what the written types are split into. -/
  split : m.fields = m.toList.map fun pair => Field.ofToken pair.1 pair.2
  /-- The written types are what the fields are put together to. -/
  joined : m.toList = m.fields.map fun f => (f.name, f.written)
  unmarked : ∀ pair ∈ m.toList, (Field.ofToken pair.1 pair.2).type.base.toList.getLast? ≠ some '?'
  pairs : Model.ofList m.toList = m
  fields : Model.ofList (m.fields.map fun f => (f.name, f.written)) = m

theorem Field.written_eq_text (f : Field) : f.written = f.type.text := by
  rw [written, FieldType.text]
  cases f.type.optional with
  | true => rfl
  | false => exact String.append_empty

theorem Model.toList_eq_map_fields (m : Model) :
    m.toList = m.fields.map fun f => (f.name, f.written) := by
  rw [Model.toList, Model.fields, List.map_map]
  refine List.map_congr_left fun entry _ => ?_
  rw [Function.comp_apply, Field.written_eq_text]

/-- The pairs that are written of a model make it again. -/
theorem Model.ofList_toList (m : Model) : Model.ofList m.toList = m := by
  have hread : (m.toList.map fun pair => (pair.1, FieldType.ofToken pair.2)) = m.types.toList := by
    rw [Model.toList, List.map_map]
    refine (List.map_congr_left fun entry _ => ?_).trans (List.map_id _)
    rw [Function.comp_apply, FieldType.ofToken_text]
    rfl
  rw [Model.ofList_eq, hread, Ordered.ofList_toList]

theorem Model.readsBack (m : Model) : m.ReadsBack where
  split := by
    rw [Model.toList, Model.fields, List.map_map]
    refine List.map_congr_left fun entry _ => ?_
    rw [Function.comp_apply, Field.ofToken, FieldType.ofToken_text]
  joined := m.toList_eq_map_fields
  unmarked := fun pair _ => (FieldType.ofToken pair.2).base_unmarked
  pairs := m.ofList_toList
  fields := by
    rw [← m.toList_eq_map_fields]
    exact m.ofList_toList

/-- **The last declaration of a name counts, and its first place.**  Whatever fields have been
    declared and however often a model has been made anew, it declares what was given since
    then, and is the same when it is read again from its written form. -/
theorem edited_declares_last (edits : List Edit) :
    (edited edits).Declares (given edits) ∧ (edited edits).ReadsBack := by
  rw [edited_eq_ofList]
  exact ⟨Model.declares_ofList (given edits), Model.readsBack _⟩

/-- A name that is declared twice, a name that is empty and a type without a base, after a model
    that was given up. -/
example :
    (edited [.insert "x" "Int", .collect [("a", "Int??"), ("", "?"), ("a", "String")],
        .insert "b" "B???", .insert "" "Int"]).toList
      = [("a", "String"), ("", "Int"), ("b", "B?")] := by
  decide

end Stencil.Schema
