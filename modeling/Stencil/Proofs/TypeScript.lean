import Mathlib.Algebra.GroupWithZero.Nat
import Stencil.Proofs.Schema.DeclaredModels
import Stencil.Proofs.Schema.Pieces
import Stencil.Proofs.Schema.WellFormed
import Stencil.TypeScript

/-! # Lines of members

    A member ends in a line break.  It has no other one as long as the name and the
    type of its field have none; but a token may have some, since a bracketed run and a
    literal belong to one token with all that is in them.

    The payoff is `breaks_members`, which counts the line breaks of the members of a
    model, whatever the schema looks like. -/

namespace Stencil.TypeScript

open Stencil.Schema (BlanksSheltered Field FieldType Index Model)
open Stencil.Schema.TokenScan (isOpening)

/-! ## Line breaks -/

/-- The number of line breaks in a text. -/
def breaks (text : String) : Nat :=
  text.toList.count '\n'

@[simp] theorem breaks_append (s t : String) : breaks (s ++ t) = breaks s + breaks t := by
  rw [breaks, String.toList_append, List.count_append]
  rfl

theorem breaks_eq_zero {text : String} : breaks text = 0 ↔ '\n' ∉ text.toList :=
  List.count_eq_zero

/-- Lines are told apart by their breaks. -/
theorem splitOn_join {lines : List String} (h : ∀ l ∈ lines, '\n' ∉ l.toList) :
    (String.join (lines.map (· ++ "\n"))).toList.splitOn '\n' = lines.map String.toList ++ [[]] := by
  rw [String.toList_join, List.flatMap_map]
  induction lines with
  | nil => rfl
  | cons l lines ih =>
      have hl : '\n' ∉ l.toList := h l (List.mem_cons_self ..)
      have hrest := ih fun k hk => h k (List.mem_cons_of_mem _ hk)
      rw [List.flatMap_cons, String.toList_append, List.append_assoc, List.map_cons,
        List.cons_append, ← hrest]
      exact List.splitOn_append_cons_self_of_not_mem hl _

/-! ## Members -/

/-- A member without its line end. -/
def line (field : Field) : String :=
  "  " ++ field.name ++ (if field.type.optional then "?" else "") ++ ": "
    ++ typeName field.type.base ++ ";"

/-- Whether neither the name nor the type of a field breaks a line. -/
def OnOneLine (field : Field) : Prop :=
  '\n' ∉ field.name.toList ∧ '\n' ∉ field.type.base.toList

theorem member_eq (field : Field) : member field = line field ++ "\n" := by
  have hend : ";\n" = ";" ++ "\n" := rfl
  rw [member, line, hend, ← String.append_assoc]

/-- The scalars have no line breaks, and neither do their names here. -/
theorem breaks_typeName (base : String) : breaks (typeName base) = breaks base := by
  unfold typeName
  split <;> simp [breaks]

/-- The mark of an optional field stands after the name alone. -/
theorem typeName_unmarked (t : FieldType) : (typeName t.base).toList.getLast? ≠ some '?' := by
  unfold typeName
  split <;> first | exact t.base_unmarked | decide

theorem breaks_line (field : Field) :
    breaks (line field) = breaks field.name + breaks field.type.base := by
  have hmark : breaks (if field.type.optional then "?" else "") = 0 := by
    split <;> rfl
  have hindent : breaks "  " = 0 := rfl
  have hcolon : breaks ": " = 0 := rfl
  have hend : breaks ";" = 0 := rfl
  rw [line, breaks_append, breaks_append, breaks_append, breaks_append, breaks_append,
    breaks_typeName, hmark, hindent, hcolon, hend]
  omega

/-- A field stands on one line if its name and its type do. -/
theorem breaks_line_eq_zero {field : Field} : breaks (line field) = 0 ↔ OnOneLine field := by
  rw [breaks_line, Nat.add_eq_zero_iff, breaks_eq_zero, breaks_eq_zero]
  rfl

/-- The members of a model are its lines, each with a line break. -/
theorem members_eq (m : Model) : members m = String.join ((m.fields.map line).map (· ++ "\n")) := by
  rw [members, List.map_map]
  exact congrArg String.join (List.map_congr_left fun field _ => member_eq field)

/-- A line break ends each line, and those in the lines are added. -/
theorem breaks_join (lines : List String) :
    breaks (String.join (lines.map (· ++ "\n"))) = lines.length + (lines.map breaks).sum := by
  induction lines with
  | nil => rfl
  | cons l lines ih =>
      have hend : breaks "\n" = 1 := rfl
      rw [List.map_cons, String.join_cons, breaks_append, breaks_append, ih, hend,
        List.length_cons, List.map_cons, List.sum_cons]
      omega

/-! ## Fields of a schema -/

/-- In the name and the type of a field, a blank stands in brackets or in a literal. -/
theorem blanksSheltered_of_mem_fields {found : List Schema.Block} {m : Model}
    (hm : m ∈ (Index.ofBlocks found).models.values) {field : Field} (hf : field ∈ m.fields) :
    BlanksSheltered field.name.toList ∧ BlanksSheltered field.type.base.toList := by
  obtain ⟨body, rfl⟩ := Index.exists_body hm
  obtain ⟨entry, hentry, rfl⟩ := List.mem_map.mp hf
  obtain ⟨d, hd, rfl⟩ := Model.exists_declaration hentry
  have htoken : ∀ token ∈ [d.name, d.type], BlanksSheltered token.toList := fun token hmem =>
    Schema.blanksSheltered_of_mem_tokens (Schema.mem_of_mem_declarations d hd token hmem).1
  refine ⟨htoken d.name (List.mem_cons_self ..), ?_⟩
  show BlanksSheltered (FieldType.baseOf d.type).toList
  rw [FieldType.baseOf, String.toList_ofList]
  have hfront := Schema.stripTrailing_prefix '?' d.type.toList
  exact (htoken d.type (List.mem_cons_of_mem _ (List.mem_cons_self ..))).front hfront

/-- Whether a field is declared without brackets and literals. -/
def Unbracketed (field : Field) : Prop :=
  ∀ c ∈ field.name.toList ++ field.type.base.toList, c ≠ '"' ∧ isOpening c = false

instance (field : Field) : Decidable (Unbracketed field) :=
  List.decidableBAll ..

theorem Unbracketed.onOneLine {field : Field} (h : Unbracketed field)
    (hname : BlanksSheltered field.name.toList) (hbase : BlanksSheltered field.type.base.toList) :
    OnOneLine field := by
  constructor
  · intro hmem
    exact nomatch hname.isBlank_eq_false (fun c hc => h c (List.mem_append_left _ hc)) '\n' hmem
  · intro hmem
    exact nomatch hbase.isBlank_eq_false (fun c hc => h c (List.mem_append_right _ hc)) '\n' hmem

/-- **Line breaks of members.**  For each model of a schema, its members have a line break for
    each field and those of the names and types of its fields.  So they are one line a
    field exactly if each field stands on one line, and then the lines are those of the
    fields, in order; in the type of a field no question mark is left at the end.

    A field that is declared without brackets and literals stands on one line, and in
    the others each blank, and so each line break, is sheltered. -/
theorem breaks_members {text : String} {index : Index} (h : Index.read text = .ok index)
    {m : Model} (hm : m ∈ index.models.values) :
    members m = String.join ((m.fields.map line).map (· ++ "\n"))
      ∧ breaks (members m)
          = m.size + (m.fields.map fun f => breaks f.name + breaks f.type.base).sum
      ∧ (breaks (members m) = m.size ↔ ∀ f ∈ m.fields, OnOneLine f)
      ∧ ((∀ f ∈ m.fields, OnOneLine f) →
          (members m).toList.splitOn '\n' = (m.fields.map fun f => (line f).toList) ++ [[]])
      ∧ ∀ f ∈ m.fields, (typeName f.type.base).toList.getLast? ≠ some '?'
          ∧ BlanksSheltered f.name.toList ∧ BlanksSheltered f.type.base.toList
          ∧ (Unbracketed f → OnOneLine f) := by
  obtain ⟨found, -, rfl⟩ := Index.blocks_of_read h
  have hcount : breaks (members m)
      = m.size + (m.fields.map fun f => breaks f.name + breaks f.type.base).sum := by
    have hsize : m.fields.length = m.size := List.length_map ..
    rw [members_eq, breaks_join, List.length_map, hsize, List.map_map]
    exact congrArg (fun counts => m.size + List.sum counts)
      (List.map_congr_left fun f _ => breaks_line f)
  refine ⟨members_eq m, hcount, ?_, ?_, ?_⟩
  · rw [hcount, Nat.add_eq_left, List.sum_eq_zero_iff_forall_eq_nat, List.forall_mem_map]
    exact forall₂_congr fun f _ => breaks_line f ▸ breaks_line_eq_zero
  · intro hlines
    rw [members_eq, splitOn_join, List.map_map]
    · rfl
    · intro l hl
      obtain ⟨f, hf, rfl⟩ := List.mem_map.mp hl
      exact breaks_eq_zero.mp (breaks_line_eq_zero.mpr (hlines f hf))
  · intro f hf
    obtain ⟨hname, hbase⟩ := blanksSheltered_of_mem_fields hm hf
    exact ⟨typeName_unmarked f.type, hname, hbase, fun hplain => hplain.onOneLine hname hbase⟩

/-- A type that is broken in its brackets, and a model with a line for each field. -/
theorem breaks_members_optional :
    ∃ (index : Index) (a b : Model),
      Index.read "model A\x7ba X[\n]\x7dmodel B\x7bb X c Int?\x7d" = .ok index
        ∧ a ∈ index.models.values ∧ b ∈ index.models.values
        ∧ breaks (members a) = 2 ∧ breaks (members b) = b.size
        ∧ (members b).toList.splitOn '\n'
          = ["  b: X;".toList, "  c?: number;".toList, []] := by
  obtain ⟨index, hread, ha, hb⟩ : ∃ index : Index,
      Index.read "model A\x7ba X[\n]\x7dmodel B\x7bb X c Int?\x7d" = .ok index
        ∧ Model.ofList [("a", "X[\n]")] ∈ index.models.values
        ∧ Model.ofList [("b", "X"), ("c", "Int?")] ∈ index.models.values :=
    ⟨Index.ofBlocks [⟨⟨.model, "A", 0⟩, "a X[\n]"⟩, ⟨⟨.model, "B", 16⟩, "b X c Int?"⟩],
      rfl, List.mem_cons_self .., List.mem_cons_of_mem _ (List.mem_cons_self ..)⟩
  obtain ⟨-, hcount, -⟩ := breaks_members hread ha
  obtain ⟨-, -, hsize, hsplit, hfields⟩ := breaks_members hread hb
  have hlines : ∀ f ∈ (Model.ofList [("b", "X"), ("c", "Int?")]).fields, OnOneLine f := by
    intro f hf
    refine (hfields f hf).2.2.2 ?_
    revert f
    decide
  exact ⟨index, _, _, hread, ha, hb, hcount, hsize.mpr hlines, hsplit hlines⟩

/-- One field makes two lines. -/
theorem breaks_members_of_one_field :
    ∃ (index : Index) (m : Model),
      Index.read "model A \x7b a Int[\n] \x7d" = .ok index ∧ m ∈ index.models.values
        ∧ m.size = 1 ∧ members m = "  a: Int[\n];\n" ∧ breaks (members m) = 2 :=
  ⟨Index.ofBlocks [⟨⟨.model, "A", 0⟩, " a Int[\n] "⟩], Model.ofList [("a", "Int[\n]")], rfl,
    List.mem_cons_self .., rfl, rfl, rfl⟩

end Stencil.TypeScript
