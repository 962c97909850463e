import Stencil.Proofs.Schema.Written
import Stencil.Schema.Index

/-! # Blueprints of schemas

    A blueprint says what a schema declares, apart from how it is laid out: its
    blocks in order, the entries of each model and enum, and the bodies of the
    blocks that declare neither.

    `Blueprint.index` is the index that a blueprint stands for.
    `Blueprint.Printed` relates it to the texts that are printings of it: gaps
    and fillers are free, and an attribute may stick to the token before it. -/

namespace Stencil.Schema.Blueprint

open Stencil.Text (occursIn)

/-! ## Parts -/

/-- A name. -/
structure Name where
  letters : List Char
  wellFormed : IsName letters

/-- The name as a text. -/
def Name.text (name : Name) : String := String.ofList name.letters

/-- A run in brackets. -/
structure Run where
  shape : Bracket
  inside : List Char
  nested : Nested inside

/-- The run as it is written. -/
def Run.chars (run : Run) : List Char :=
  run.shape.opening :: (run.inside ++ [run.shape.closing])

/-- An attribute: a word and possibly arguments. -/
structure Attribute where
  word : List Char
  arguments : Option (List Char)
  wellFormed : IsWord word
  nested : ∀ inside ∈ arguments, Nested inside

namespace Attribute

/-- The attribute as it is written. -/
def chars (a : Attribute) : List Char :=
  '@' :: (a.word ++
    match a.arguments with
    | some inside => '(' :: (inside ++ [')'])
    | none => [])

/-- Whether it is a relation attribute: the word `relation` with arguments. -/
def isRelation (a : Attribute) : Bool :=
  a.word = "relation".toList && a.arguments.isSome

/-- Whether `@relation(` stands among the arguments, in a string literal for example. -/
def quotesRelation (a : Attribute) : Bool :=
  match a.arguments with
  | some inside => occursIn "@relation(".toList inside
  | none => false

end Attribute

/-- A declared type: a name, possibly a run in brackets, and question marks. -/
structure TypeToken where
  name : Name
  run : Option Run
  marks : Nat

namespace TypeToken

/-- The type without its question marks. -/
def base (t : TypeToken) : List Char :=
  t.name.letters ++
    match t.run with
    | some run => run.chars
    | none => []

/-- The type as it is written. -/
def chars (t : TypeToken) : List Char :=
  t.base ++ List.replicate t.marks '?'

theorem closing_ne_mark (shape : Bracket) : shape.closing ≠ '?' := by
  cases shape <;> decide

/-- The base ends in a letter, a digit, an underscore or a bracket. -/
theorem getLast?_base (t : TypeToken) : t.base.getLast? ≠ some '?' := by
  rw [base]
  cases t.run with
  | some run =>
      show (t.name.letters ++ run.chars).getLast? ≠ some '?'
      rw [Run.chars, List.getLast?_append, List.getLast?_cons, List.getLast?_concat]
      intro h
      exact closing_ne_mark run.shape (Option.some.inj h)
  | none =>
      rw [List.append_nil]
      intro h
      have := t.name.wellFormed.2 '?' (List.mem_of_getLast? h)
      exact absurd this (by decide)

/-- The type that is declared. -/
def fieldType (t : TypeToken) : FieldType where
  base := String.ofList t.base
  optional := t.marks != 0
  base_unmarked := by
    rw [String.toList_ofList]
    exact t.getLast?_base

end TypeToken

/-! ## Entries -/

/-- An entry of a model. -/
inductive Entry where
  | field (name : Name) (type : TypeToken) (attributes : List Attribute)
  /-- An attribute of the whole model. -/
  | whole (a : Attribute)

namespace Entry

/-- The tokens of an entry. -/
def tokens : Entry → List (List Char)
  | .field name type attributes =>
      name.letters :: type.chars :: attributes.map Attribute.chars
  | .whole a => ['@' :: a.chars]

/-- Whether an entry declares a relation. -/
def isRelation : Entry → Bool
  | .field _ _ attributes => attributes.any Attribute.isRelation
  | .whole _ => false

/-- Whether an entry quotes the mark of relations in an attribute. -/
def quotesRelation : Entry → Bool
  | .field _ _ attributes => attributes.any Attribute.quotesRelation
  | .whole _ => false

/-- The scalar field that is read from an entry, if one is.  A field whose attributes only
    quote the mark of relations is no relation, but it is left out as if it were one. -/
def scalar? (entry : Entry) : Option (String × FieldType) :=
  match entry with
  | .field name type _ =>
      if entry.isRelation || entry.quotesRelation then none
      else some (name.text, type.fieldType)
  | .whole _ => none

/-- The name of the field that an entry declares, scalar or not. -/
def fieldName? : Entry → Option String
  | .field name _ _ => some name.text
  | .whole _ => none

end Entry

/-- An entry of an enum. -/
inductive EnumEntry where
  | value (name : Name)
  /-- An attribute of the value before it. -/
  | attached (a : Attribute)
  /-- An attribute of the whole enum. -/
  | whole (a : Attribute)

namespace EnumEntry

/-- The token of an entry. -/
def token : EnumEntry → List Char
  | .value name => name.letters
  | .attached a => a.chars
  | .whole a => '@' :: a.chars

/-- The value that an entry declares, if it declares one. -/
def value? : EnumEntry → Option String
  | .value name => some name.text
  | .attached _ => none
  | .whole _ => none

end EnumEntry

/-! ## Blocks -/

/-- A block. -/
inductive Block where
  | model (name : Name) (entries : List Entry)
  | enum (name : Name) (entries : List EnumEntry)
  /-- A block of one of the kinds that declare nothing. -/
  | other (kind : BlockKind) (name : Name) (body : List Char)
      (silent : kind ≠ .model ∧ kind ≠ .enum) (balanced : Balanced body)

/-- The scalar fields of a model. -/
def scalars (entries : List Entry) : List (String × FieldType) :=
  entries.filterMap Entry.scalar?

/-- The model that some entries declare. -/
def modelOf (entries : List Entry) : Model :=
  ⟨Ordered.ofList (scalars entries)⟩

/-- The enum that some entries declare. -/
def enumOf (name : Name) (entries : List EnumEntry) : Enum :=
  ⟨name.text, (entries.filterMap EnumEntry.value?).eraseDups⟩

namespace Block

/-- The model that a block declares, under its name. -/
def model? : Block → Option (String × Model)
  | .model name entries => some (name.text, modelOf entries)
  | .enum _ _ => none
  | .other _ _ _ _ _ => none

/-- The enum that a block declares, under its name. -/
def enum? : Block → Option (String × Enum)
  | .enum name entries => some (name.text, enumOf name entries)
  | .model _ _ => none
  | .other _ _ _ _ _ => none

end Block

end Blueprint

/-- The blocks of a schema. -/
abbrev Blueprint := List Blueprint.Block

namespace Blueprint

/-- The index that a blueprint stands for. -/
def index (blueprint : Blueprint) : Index where
  models := Ordered.ofList (blueprint.filterMap Block.model?)
  enums := Ordered.ofList (blueprint.filterMap Block.enum?)

/-! ## Printing -/

/-- Tokens with a filler after each.  Between two tokens the filler may be empty
    only if the second one is an attribute. -/
inductive Spaced : List (List Char) → List Char → Prop where
  | nil : Spaced [] []
  | cons {token gap rest : List Char} {tokens : List (List Char)} :
      Filler gap → (gap = [] → ∀ next ∈ tokens.head?, next.head? = some '@') →
      Spaced tokens rest → Spaced (token :: tokens) (token ++ (gap ++ rest))

/-- Tokens with fillers around them. -/
def Body (tokens : List (List Char)) (text : List Char) : Prop :=
  ∃ lead rest : List Char, Filler lead ∧ Spaced tokens rest ∧ text = lead ++ rest

/-- The printings of a block. -/
inductive Block.Printed : Block → List Char → Prop where
  | model {name : Name} {entries : List Entry} {body text : List Char} :
      Body (entries.flatMap Entry.tokens) body →
      Written .model name.letters body text → Block.Printed (.model name entries) text
  | enum {name : Name} {entries : List EnumEntry} {body text : List Char} :
      Body (entries.map EnumEntry.token) body →
      Written .enum name.letters body text → Block.Printed (.enum name entries) text
  | other {kind : BlockKind} {name : Name} {body text : List Char}
      {silent : kind ≠ .model ∧ kind ≠ .enum} {balanced : Balanced body} :
      Written kind name.letters body text →
      Block.Printed (.other kind name body silent balanced) text

/-- The printings of a blueprint: those of its blocks, with fillers around
    them. -/
inductive Printed : Blueprint → List Char → Prop where
  | nil {filler : List Char} : Filler filler → Printed [] filler
  | cons {lead text rest : List Char} {block : Block} {blocks : Blueprint} :
      Filler lead → block.Printed text → Printed blocks rest →
      Printed (block :: blocks) (lead ++ (text ++ rest))

end Blueprint

end Stencil.Schema
