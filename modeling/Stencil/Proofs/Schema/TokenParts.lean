import Mathlib.Data.List.TakeWhile
import Stencil.Schema.Declaration

/-! # Tokens read part by part

    The tokens of a model body declare what their parts declare, if they are cut
    where one part is read to its end and the next one opens with no attribute of a
    field (`declarations_append`).

    A part is not read to its end if its last token is a name (`endsInName`): the name
    waits for its type, and takes the first token of the next part for it.

    A declaration that stands among tokens is such a part: name, type and attributes
    together are read as this declaration, and what comes after it is read as if
    nothing stood before it (`declarations_written`). -/

namespace Stencil.Schema

/-! ## Tokens that are read to their end -/

/-- Whether a token is an attribute of the field before it. -/
def isFieldAttribute (token : String) : Bool :=
  isAttribute token && !isBlockAttribute token

/-- Whether no token can take another one for its type: an attribute, or a braced run. -/
def isPassedOver (token : String) : Bool :=
  isAttribute token || isBraced token

/-- Whether reading tokens ends at a name, its type still to come. -/
def endsInName : List String → Bool
  | [] => false
  | [token] => !isPassedOver token
  | name :: type :: rest =>
      if isAttribute name || isBraced name || isAttribute type then endsInName (type :: rest)
      else endsInName rest

variable {ts more : List String} {token : String}

theorem declarations_passedOver (h : isPassedOver token = true) (rest : List String) :
    declarations (token :: rest) = declarations rest := by
  cases rest with
  | nil => rfl
  | cons next rest =>
      rw [declarations, if_pos]
      rw [Bool.or_eq_true]
      exact Or.inl h

/-- The attributes of a field end where no attribute of a field follows. -/
theorem fieldAttributes_of_head? (h : ∀ token ∈ more.head?, isFieldAttribute token = false) :
    fieldAttributes (ts ++ more) = fieldAttributes ts := by
  induction ts with
  | nil =>
      cases more with
      | nil => rfl
      | cons token more =>
          show List.takeWhile isFieldAttribute (token :: more) = []
          rw [List.takeWhile_cons, h token rfl]
          rfl
  | cons token ts ih =>
      show List.takeWhile isFieldAttribute (token :: (ts ++ more))
        = List.takeWhile isFieldAttribute (token :: ts)
      rw [List.takeWhile_cons, List.takeWhile_cons]
      by_cases hkeep : isFieldAttribute token = true
      · rw [if_pos hkeep, if_pos hkeep]
        exact congrArg (token :: ·) ih
      · rw [if_neg hkeep, if_neg hkeep]

/-- Tokens are read part by part: a part that ends in no name, and the tokens after it, which
    open with no attribute of its last field. -/
theorem declarations_append (hts : endsInName ts = false)
    (hmore : ∀ token ∈ more.head?, isFieldAttribute token = false) :
    declarations (ts ++ more) = declarations ts ++ declarations more := by
  induction ts using declarations.induct with
  | case1 => rfl
  | case2 token =>
      have hpassed : isPassedOver token = true := by
        rw [endsInName] at hts
        exact (Bool.not_eq_false' _).mp hts
      exact declarations_passedOver hpassed more
  | case3 name type rest hpass ih =>
      rw [endsInName, if_pos hpass] at hts
      rw [List.cons_append, List.cons_append, declarations, if_pos hpass, declarations,
        if_pos hpass]
      exact ih hts
  | case4 name type rest hpass hbraced ih =>
      rw [endsInName, if_neg hpass] at hts
      rw [List.cons_append, List.cons_append, declarations, if_neg hpass, if_pos hbraced,
        declarations, if_neg hpass, if_pos hbraced]
      exact ih hts
  | case5 name type rest hpass hbraced ih =>
      rw [endsInName, if_neg hpass] at hts
      rw [List.cons_append, List.cons_append, declarations, if_neg hpass, if_neg hbraced,
        declarations, if_neg hpass, if_neg hbraced, fieldAttributes_of_head? hmore, ih hts]
      rfl

/-! ## Declarations among tokens -/

/-- The tokens of a declaration. -/
def Declaration.written (d : Declaration) : List String :=
  d.name :: d.type :: d.attributes

/-- Whether the tokens of a declaration, and those that come after it, are read as this
    declaration: its name and its type are no attributes and no braced runs, and its attributes
    are all the attributes of a field that follow. -/
structure Declaration.StandsBefore (d : Declaration) (after : List String) : Prop where
  name : isPassedOver d.name = false
  type : isPassedOver d.type = false
  attributes : ∀ token ∈ d.attributes, isFieldAttribute token = true
  no_more : ∀ token ∈ after.head?, isFieldAttribute token = false

namespace Declaration.StandsBefore

variable {d : Declaration} {after : List String}

theorem fieldAttributes_eq (h : d.StandsBefore after) :
    fieldAttributes (d.attributes ++ after) = d.attributes := by
  rw [fieldAttributes_of_head? h.no_more]
  exact List.takeWhile_eq_self_iff.mpr h.attributes

/-- Attributes declare nothing by themselves. -/
theorem declarations_attributes (h : d.StandsBefore after) :
    declarations (d.attributes ++ after) = declarations after := by
  have hgen : ∀ attributes : List String,
      (∀ token ∈ attributes, isFieldAttribute token = true) →
        declarations (attributes ++ after) = declarations after := by
    intro attributes
    induction attributes with
    | nil => intro _; rfl
    | cons token attributes ih =>
        intro hall
        have hattribute : isAttribute token = true :=
          (Bool.and_eq_true_iff.mp (hall token (List.mem_cons_self ..))).1
        have hpassed : isPassedOver token = true := by rw [isPassedOver, hattribute]; rfl
        rw [List.cons_append, declarations_passedOver hpassed]
        exact ih fun other hmem => hall other (List.mem_cons_of_mem _ hmem)
  exact hgen d.attributes h.attributes

/-- The declaration is read, and then what comes after it. -/
theorem declarations_written (h : d.StandsBefore after) :
    declarations (d.written ++ after) = d :: declarations after := by
  obtain ⟨hname, hname'⟩ := Bool.or_eq_false_iff.mp h.name
  obtain ⟨htype, htype'⟩ := Bool.or_eq_false_iff.mp h.type
  have hpass : ¬ (isAttribute d.name || isBraced d.name || isAttribute d.type) = true := by
    rw [hname, hname', htype]
    exact Bool.false_ne_true
  have hbraced : ¬ isBraced d.type = true := by
    rw [htype']
    exact Bool.false_ne_true
  show declarations (d.name :: d.type :: (d.attributes ++ after)) = _
  rw [declarations, if_neg hpass, if_neg hbraced, h.fieldAttributes_eq, h.declarations_attributes]

theorem head?_written (h : d.StandsBefore after) :
    ∀ token ∈ (d.written ++ after).head?, isFieldAttribute token = false := by
  intro token hmem
  obtain rfl : d.name = token := Option.some.inj hmem
  rw [isFieldAttribute, (Bool.or_eq_false_iff.mp h.name).1]
  rfl

end Declaration.StandsBefore

end Stencil.Schema
