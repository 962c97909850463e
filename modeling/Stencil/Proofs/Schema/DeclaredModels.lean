import Stencil.Proofs.Schema.WellFormed

/-! # Models without enums

    A model of an index is what its block declares, read by itself: of several blocks
    with one name the last one counts, and the models stand in the order in which
    their names first come up.

    Enums do not matter to a model.  A field whose type names an enum would take the
    name that the enum is stored with, and that is the name it has already; its mark
    for optional fields stays as it is.  The payoff is `models_without_enums`. -/

namespace Stencil.Schema

/-- What is read from a text is what its blocks declare. -/
theorem Index.blocks_of_read {text : String} {index : Index} (h : Index.read text = .ok index) :
    ∃ found : List Block, blocks text = .ok found ∧ index = Index.ofBlocks found := by
  rw [Index.read] at h
  cases hfound : blocks text with
  | error opened =>
      rw [hfound] at h
      cases h
  | ok found =>
      rw [hfound] at h
      exact ⟨found, rfl, (Except.ok.inj h).symm⟩

/-- Whether a block is the last model of a name among blocks. -/
structure Block.IsLastModel (b : Block) (name : String) (found : List Block) : Prop where
  kind : b.header.kind = .model
  name_eq : b.header.name = name
  last : ∃ earlier later : List Block,
    found = earlier ++ b :: later ∧ name ∉ namesOf .model later

/-- A model is looked up as the last block of its name declares it. -/
theorem Index.model?_ofBlocks_eq_some_iff {found : List Block} {name : String} {m : Model} :
    (Index.ofBlocks found).model? name = some m
      ↔ ∃ b : Block, b.IsLastModel name found ∧ m = Model.ofTokens (tokens b.body) := by
  rw [Index.model?, Index.models_ofBlocks, Ordered.get?_ofList_eq_some_iff]
  constructor
  · rintro ⟨before, after, hpairs, hlast⟩
    obtain ⟨earlier, rest, rfl, -, hrest⟩ := List.filterMap_eq_append_iff.mp hpairs
    obtain ⟨skipped, b, later, rfl, -, hb, rfl⟩ := List.filterMap_eq_cons_iff.mp hrest
    obtain ⟨hkind, heq⟩ := Option.ite_none_right_eq_some.mp hb
    cases heq
    refine ⟨b, ⟨hkind, rfl, earlier ++ skipped, later, ?_, ?_⟩, rfl⟩
    · rw [List.append_assoc]
    · rwa [← map_fst_declared .model]
  · rintro ⟨b, ⟨hkind, rfl, earlier, later, rfl, hlast⟩, rfl⟩
    refine ⟨earlier.filterMap Block.model?, later.filterMap Block.model?, ?_, ?_⟩
    · have hb : b.model? = some (b.header.name, Model.ofTokens (tokens b.body)) := by
        rw [Block.model?, if_pos hkind]
      rw [List.filterMap_append, List.filterMap_cons_some hb]
    · rwa [← map_fst_declared .model] at hlast

/-- **Enums never change a model.**  The enums of an index leave every model as it is, and every
    written type that is read again.  So the models of the index, their order included, are those
    that the blocks of the text declare when no enum is known: each one is what the tokens of the
    last block of its name declare. -/
theorem models_without_enums {text : String} {index : Index} (h : Index.read text = .ok index) :
    (∀ m : Model, m.resolve index.enums = m)
      ∧ (∀ (m : Model) (name written : String), m.get? name = some written →
        ((FieldType.ofToken written).resolve index.enums).text = written)
      ∧ ∃ found : List Block, blocks text = .ok found
        ∧ index.models = Ordered.ofList (found.filterMap Block.model?)
        ∧ ∀ (name : String) (m : Model), index.model? name = some m
          ↔ ∃ b : Block, b.IsLastModel name found ∧ m = Model.ofTokens (tokens b.body) := by
  obtain ⟨found, hfound, rfl⟩ := Index.blocks_of_read h
  refine ⟨Model.resolve_enumsOf found, ?_, found, hfound, Index.models_ofBlocks found,
    fun _ _ => Index.model?_ofBlocks_eq_some_iff⟩
  intro m name written hwritten
  obtain ⟨t, -, rfl⟩ := Option.map_eq_some_iff.mp hwritten
  show ((FieldType.ofToken t.text).resolve (Index.enumsOf found)).text = t.text
  rw [FieldType.ofToken_text, FieldType.resolve_enumsOf]

/-- A model that is declared twice, and a type that is marked twice and names an enum further
    down. -/
theorem models_without_enums_twice :
    ∃ index : Index,
      Index.read "model A\x7b\x7dmodel A\x7bb B??\x7denum B\x7bX\x7d" = .ok index
        ∧ (∀ m : Model, m.resolve index.enums = m)
        ∧ index.model? "A" = some (Model.ofTokens ["b", "B??"]) := by
  have hread : Index.read "model A\x7b\x7dmodel A\x7bb B??\x7denum B\x7bX\x7d"
      = .ok (Index.ofBlocks [⟨⟨.model, "A", 0⟩, ""⟩, ⟨⟨.model, "A", 9⟩, "b B??"⟩,
        ⟨⟨.enum, "B", 23⟩, "X"⟩]) := rfl
  obtain ⟨hresolve, -, found, hfound, -, hlast⟩ := models_without_enums hread
  obtain rfl : [⟨⟨.model, "A", 0⟩, ""⟩, ⟨⟨.model, "A", 9⟩, "b B??"⟩, ⟨⟨.enum, "B", 23⟩, "X"⟩]
    = found := Except.ok.inj hfound
  have hlastModel : Block.IsLastModel ⟨⟨.model, "A", 9⟩, "b B??"⟩ "A"
      [⟨⟨.model, "A", 0⟩, ""⟩, ⟨⟨.model, "A", 9⟩, "b B??"⟩, ⟨⟨.enum, "B", 23⟩, "X"⟩] :=
    ⟨rfl, rfl, [_], [_], rfl, by decide⟩
  exact ⟨_, hread, hresolve, (hlast "A" _).mpr ⟨_, hlastModel, rfl⟩⟩

end Stencil.Schema
