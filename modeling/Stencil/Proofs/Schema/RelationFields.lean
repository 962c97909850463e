import Stencil.Proofs.Schema.TokenParts

/-! # Relation fields leave nothing behind

    The declaration of a relation (name, type and attributes together) may be taken
    out of the tokens of a body, and all that stands around it is read as before:
    fields keep their types and attributes, and a field of the same name keeps its
    place.

    What stands before the declaration must be read to its end.  A name that is last
    there still waits for its type, and would take the name of the relation for it. -/

namespace Stencil.Schema

/-- **A relation leaves nothing behind.**  A body that declares a relation somewhere, and a body
    whose tokens are the same ones without this declaration, declare the same model, whatever
    stands after it, and whatever stands before it that does not end in a name. -/
theorem ofTokens_without_relation {body body' : String} {before after : List String}
    {d : Declaration} (hbody : tokens body = before ++ d.written ++ after)
    (hbody' : tokens body' = before ++ after) (hbefore : endsInName before = false)
    (hd : d.StandsBefore after) (hrelation : d.isRelation = true) :
    Model.ofTokens (tokens body) = Model.ofTokens (tokens body') := by
  have hwith : declarations (tokens body) = declarations before ++ d :: declarations after := by
    rw [hbody, List.append_assoc, declarations_append hbefore hd.head?_written,
      hd.declarations_written]
  have hwithout : declarations (tokens body') = declarations before ++ declarations after := by
    rw [hbody', declarations_append hbefore hd.no_more]
  have hdropped : ¬ (!d.isRelation) = true := by
    rw [hrelation]
    exact Bool.false_ne_true
  rw [Model.ofTokens, Model.ofTokens, hwith, hwithout, List.filter_append, List.filter_append,
    List.filter_cons, if_neg hdropped]

/-- A relation between two fields of its own name, of which the first one keeps its place and the
    second one its type. -/
theorem ofTokens_without_relation_twice :
    tokens "a Int? @id a B @relation(b) @map(c) a String"
        = ["a", "Int?", "@id"] ++ Declaration.written ⟨"a", "B", ["@relation(b)", "@map(c)"]⟩
          ++ ["a", "String"]
      ∧ tokens "a Int? @id a String" = ["a", "Int?", "@id"] ++ ["a", "String"]
      ∧ Model.ofTokens (tokens "a Int? @id a B @relation(b) @map(c) a String")
        = Model.ofTokens (tokens "a Int? @id a String") := by
  have hbody : tokens "a Int? @id a B @relation(b) @map(c) a String"
      = ["a", "Int?", "@id"] ++ Declaration.written ⟨"a", "B", ["@relation(b)", "@map(c)"]⟩
        ++ ["a", "String"] := rfl
  have hbody' : tokens "a Int? @id a String" = ["a", "Int?", "@id"] ++ ["a", "String"] := rfl
  have hstands : Declaration.StandsBefore ⟨"a", "B", ["@relation(b)", "@map(c)"]⟩
      ["a", "String"] := by
    constructor <;> decide
  exact ⟨hbody, hbody', ofTokens_without_relation hbody hbody' (by decide) hstands (by decide)⟩

/-- A name without its type in front takes the name of the relation for it. -/
example : Model.ofTokens (["a"] ++ Declaration.written ⟨"n", "B", ["@relation(b)"]⟩)
    ≠ Model.ofTokens ["a"] := by
  decide

end Stencil.Schema
