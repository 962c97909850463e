import Stencil.Proofs.Schema.Declared
import Stencil.Proofs.Schema.Passage
import Stencil.Proofs.Schema.TokenPassage

/-! # Reading a printed schema

    A printing of a blueprint reads as the index that the blueprint stands for,
    however it is laid out (`read_printed`).

    The block scan finds one block for each block of the blueprint, with the
    name and the body it was written with; the token scan gives back the tokens
    of each body; and these declare what the entries of the blueprint say. -/

namespace Stencil.Schema.Blueprint

/-! ## Bodies -/

/-- Tokens with fillers after them are balanced. -/
theorem Spaced.balanced {toks : List (List Char)} {text : List Char} (h : Spaced toks text)
    (htoks : ∀ token ∈ toks, IsToken token) : Balanced text := by
  induction h with
  | nil => exact Balanced.nil
  | @cons token gap rest toks hgap _ _ ih =>
      obtain ⟨htoken, -, -, hslash⟩ := (htoks token (List.mem_cons_self ..)).facts
      obtain ⟨hfiller, hnl⟩ := hgap.balanced
      have hrest := ih (fun t ht => htoks t (List.mem_cons_of_mem _ ht))
      exact htoken.append (hfiller.append hrest (fun h => absurd h hnl))
        (fun h => absurd h hslash)

theorem Body.balanced {toks : List (List Char)} {text : List Char} (h : Body toks text)
    (htoks : ∀ token ∈ toks, IsToken token) : Balanced text := by
  obtain ⟨lead, rest, hlead, hrest, rfl⟩ := h
  obtain ⟨hfiller, hnl⟩ := hlead.balanced
  exact hfiller.append (hrest.balanced htoks) (fun h => absurd h hnl)

/-! ## Blocks -/

/-- Whether a block that was found declares what a block of a blueprint does. -/
def Block.Declares (block : Block) (found : Schema.Block) : Prop :=
  found.model? = block.model? ∧ found.enum? = block.enum?

/-- A printed block is written with a balanced body, and the block that it is
    declares the same. -/
theorem Block.Printed.written {block : Block} {text : List Char} (h : block.Printed text) :
    ∃ (kind : BlockKind) (name body : List Char), Written kind name body text
      ∧ Balanced body
      ∧ ∀ o, block.Declares ⟨⟨kind, String.ofList name, o⟩, String.ofList body⟩ := by
  cases h with
  | @model name entries body _ hbody hw =>
      have htoks : ∀ token ∈ entries.flatMap Entry.tokens, IsToken token := by
        intro token hmem
        obtain ⟨entry, -, hentry⟩ := List.mem_flatMap.mp hmem
        exact Entry.isToken hentry
      refine ⟨.model, name.letters, body, hw, hbody.balanced htoks, fun o => ⟨?_, rfl⟩⟩
      show some (String.ofList name.letters, Model.ofTokens (tokens (String.ofList body))) = _
      rw [tokens_body hbody htoks]
      exact congrArg (fun m => some (name.text, m)) (ofTokens_modelTokens entries)
  | @enum name entries body _ hbody hw =>
      have htoks : ∀ token ∈ entries.map EnumEntry.token, IsToken token := by
        intro token hmem
        obtain ⟨entry, -, rfl⟩ := List.mem_map.mp hmem
        exact entry.isToken
      refine ⟨.enum, name.letters, body, hw, hbody.balanced htoks, fun o => ⟨rfl, ?_⟩⟩
      show some (String.ofList name.letters,
        Enum.ofTokens name.text (tokens (String.ofList body))) = _
      rw [tokens_body hbody htoks, ofTokens_enumTokens]
      rfl
  | @other kind name body _ silent balanced hw =>
      refine ⟨kind, name.letters, body, hw, balanced, fun o => ⟨?_, ?_⟩⟩
      · rw [Schema.Block.model?, if_neg silent.1]
        rfl
      · rw [Schema.Block.enum?, if_neg silent.2]
        rfl

/-! ## Schemas -/

/-- A scan of a printing finds blocks that declare what those of the blueprint
    do. -/
theorem Printed.run {blueprint : Blueprint} {text : List Char} (h : blueprint.Printed text) :
    ∀ (o : Nat) (found : List Schema.Block), ∃ blocks : List Schema.Block,
      Scan.run ⟨o, .code, .between, found⟩ text
          = ⟨o + width text, .code, .between, blocks.reverse ++ found⟩
        ∧ blocks.filterMap Schema.Block.model? = blueprint.filterMap Block.model?
        ∧ blocks.filterMap Schema.Block.enum? = blueprint.filterMap Block.enum? := by
  induction h with
  | nil hfiller =>
      intro o found
      exact ⟨[], Scan.run_filler hfiller o, rfl, rfl⟩
  | @cons lead text rest block blueprint hlead hblock _ ih =>
      intro o found
      obtain ⟨kind, name, body, hw, hbal, hdeclares⟩ := hblock.written
      obtain ⟨blocks, hrun, hmodels, henums⟩ := ih (o + width lead + width text)
        (⟨⟨kind, String.ofList name, o + width lead⟩, String.ofList body⟩ :: found)
      obtain ⟨hmodel, henum⟩ := hdeclares (o + width lead)
      refine ⟨⟨⟨kind, String.ofList name, o + width lead⟩, String.ofList body⟩ :: blocks,
        ?_, ?_, ?_⟩
      · rw [Scan.run_append, Scan.run_filler hlead, Scan.run_append, Scan.run_written hw hbal,
          hrun, width_append, width_append, List.reverse_cons, List.append_assoc,
          Nat.add_assoc, Nat.add_assoc]
        rfl
      · rw [List.filterMap_cons, List.filterMap_cons, hmodel, hmodels]
      · rw [List.filterMap_cons, List.filterMap_cons, henum, henums]

end Stencil.Schema.Blueprint

namespace Stencil.Schema

/-- The blocks that are found in a printing make the index that the blueprint stands
    for. -/
theorem Blueprint.Printed.blocks {blueprint : Blueprint} {text : String}
    (h : blueprint.Printed text.toList) :
    ∃ found : List Schema.Block, Schema.blocks text = .ok found
      ∧ Index.ofBlocks found = blueprint.index := by
  obtain ⟨found, hrun, hmodels, henums⟩ := h.run 0 []
  refine ⟨found, ?_, ?_⟩
  · rw [Schema.blocks, Scan.start, hrun, List.append_nil]
    exact congrArg Except.ok (List.reverse_reverse found)
  · have hm := Index.models_ofBlocks found
    have he : (Index.ofBlocks found).enums
        = Ordered.ofList (found.filterMap Schema.Block.enum?) := rfl
    rw [hmodels] at hm
    rw [henums] at he
    calc Index.ofBlocks found
        = ⟨(Index.ofBlocks found).models, (Index.ofBlocks found).enums⟩ := rfl
      _ = blueprint.index := by rw [hm, he]; rfl

/-- **The round trip.**  Every printing of a blueprint reads as the index that the
    blueprint stands for. -/
theorem read_printed {blueprint : Blueprint} {text : String}
    (h : blueprint.Printed text.toList) : Index.read text = .ok blueprint.index := by
  obtain ⟨found, hfound, hindex⟩ := h.blocks
  rw [Index.read, hfound]
  exact congrArg Except.ok hindex

/-! ## A printing -/

namespace Blueprint

/-- The name of the model of posts. -/
def postName : Name := ⟨"Post".toList, by decide⟩

/-- The entries of that model: a field, a relation and an attribute of its own. -/
def postEntries : List Entry :=
  [ .field ⟨"id".toList, by decide⟩ ⟨⟨"Int".toList, by decide⟩, none, 0⟩
      [⟨"id".toList, none, by decide, nofun⟩],
    .field ⟨"tags".toList, by decide⟩ ⟨⟨"Tag".toList, by decide⟩, some ⟨.square, [], .nil⟩, 1⟩
      [⟨"relation".toList, some "\"\x7d\"".toList, by decide, fun _ h => Option.some.inj h ▸
        .literal (.plain (by decide) (by decide) .nil) .nil⟩],
    .whole ⟨"map".toList, none, by decide, nofun⟩ ]

/-- A model of posts. -/
def post : Block := .model postName postEntries

/-- An enum of one value. -/
def role : Block :=
  .enum ⟨"Role".toList, by decide⟩ [.value ⟨"ADMIN".toList, by decide⟩]

/-- A data source without settings. -/
def source : Block :=
  .other .datasource ⟨"db".toList, by decide⟩ [] (by decide) .nil

/-- The posts in one of their layouts: an attribute sticks to a type, a comment to
    an attribute, and a literal holds a brace. -/
def postText : String :=
  "model Post \x7bid Int@id//key\n tags Tag[]?@relation(\"\x7d\")@@map \x7d"

/-- The enum in one of its layouts. -/
def roleText : String := "enum Role\n\x7b\tADMIN\x7d"

/-- The data source in one of its layouts. -/
def sourceText : String := "datasource db\x7b\x7d"

/-- The layout of the posts is a printing. -/
theorem post_printed : post.Printed postText.toList := by
  have hspace : Filler [' '] := .blank rfl .nil
  have hcomment : Filler ('/' :: '/' :: ("key".toList ++ '\n' :: [' '])) :=
    .comment (by decide) hspace
  have hspaced : Spaced ["id".toList, "Int".toList, "@id".toList, "tags".toList,
      "Tag[]?".toList, "@relation(\"\x7d\")".toList, "@@map".toList] _ :=
    .cons hspace nofun <| .cons .nil (fun _ _ h => Option.some.inj h ▸ rfl) <|
      .cons hcomment nofun <| .cons hspace nofun <|
      .cons .nil (fun _ _ h => Option.some.inj h ▸ rfl) <|
      .cons .nil (fun _ _ h => Option.some.inj h ▸ rfl) <| .cons hspace nofun .nil
  exact .model ⟨[], _, .nil, hspaced, rfl⟩
    ⟨[' '], [' '], nofun, by decide, by decide, by decide, rfl⟩

theorem role_printed : role.Printed roleText.toList :=
  .enum ⟨['\t'], _, .blank rfl .nil, .cons .nil (fun _ _ h => by cases h) .nil, rfl⟩
    ⟨[' '], ['\n'], nofun, by decide, by decide, by decide, rfl⟩

theorem source_printed : source.Printed sourceText.toList :=
  .other ⟨[' '], [], nofun, by decide, by decide, by decide, rfl⟩

/-- A small blog. -/
def blog : Blueprint := [post, role, source]

/-- The blog, its blocks one after the other. -/
def blogText : String := postText ++ (roleText ++ (" " ++ sourceText))

theorem blog_printed : blog.Printed blogText.toList := by
  have hspace : Filler " ".toList := .blank rfl .nil
  have hblog := Printed.cons .nil post_printed (.cons .nil role_printed
    (.cons hspace source_printed (.nil .nil)))
  rw [List.append_nil] at hblog
  simp only [blogText, String.toList_append]
  exact hblog

end Blueprint

/-- The round trip of a small blog: a model with one scalar field, and an enum with one
    value. -/
theorem read_printed_blog :
    Blueprint.blog.Printed Blueprint.blogText.toList
      ∧ Index.read Blueprint.blogText
        = .ok ⟨Ordered.ofList [("Post", Model.ofList [("id", "Int")])],
            Ordered.ofList [("Role", ⟨"Role", ["ADMIN"]⟩)]⟩ := by
  have hindex : Blueprint.blog.index = ⟨Ordered.ofList [("Post", Model.ofList [("id", "Int")])],
      Ordered.ofList [("Role", ⟨"Role", ["ADMIN"]⟩)]⟩ := by decide +kernel
  exact ⟨Blueprint.blog_printed, hindex ▸ read_printed Blueprint.blog_printed⟩

end Stencil.Schema
