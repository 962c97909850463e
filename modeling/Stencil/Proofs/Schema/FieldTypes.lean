import Stencil.Proofs.Ordered
import Stencil.Schema.Index

/-! # Field types and enums

    A declared type reads back from its written form.  Every enum of a schema is
    stored under its own name, so a type whose base is an enum already has the
    name it would take: resolving changes no model (`Model.resolve_enumsOf`). -/

namespace Stencil.Text

/-- Copies of a character that a text does not end in can be stripped again. -/
theorem stripTrailing_append_replicate {c : Char} {cs : List Char}
    (h : cs.getLast? ≠ some c) (n : Nat) :
    stripTrailing c (cs ++ List.replicate n c) = cs := by
  have hrev : (cs.reverse).dropWhile (· = c) = cs.reverse := by
    rw [← List.head?_reverse] at h
    cases hcs : cs.reverse with
    | nil => rfl
    | cons d rest =>
        rw [hcs] at h
        rw [List.dropWhile_cons, if_neg]
        intro hd
        exact h (congrArg some (of_decide_eq_true hd))
  rw [stripTrailing, List.reverse_append, List.reverse_replicate]
  induction n with
  | zero => rw [List.replicate_zero, List.nil_append, hrev, List.reverse_reverse]
  | succ n ih => rw [List.replicate_succ, List.cons_append, List.dropWhile_cons, if_pos (by simp), ih]

end Stencil.Text

namespace Stencil.Schema

open Stencil.Text (stripTrailing_append_replicate)

namespace FieldType

theorem ext {t t' : FieldType} (hbase : t.base = t'.base)
    (hoptional : t.optional = t'.optional) : t = t' := by
  obtain ⟨base, optional, unmarked⟩ := t
  obtain ⟨base', optional', unmarked'⟩ := t'
  cases (show base = base' from hbase)
  cases (show optional = optional' from hoptional)
  rfl

/-- The base of a text with question marks after it. -/
theorem baseOf_marked {base : List Char} (h : base.getLast? ≠ some '?') (marks : Nat) :
    baseOf (String.ofList (base ++ List.replicate marks '?')) = String.ofList base := by
  rw [baseOf, String.toList_ofList, stripTrailing_append_replicate h]

theorem optional_ofToken (token : String) :
    (ofToken token).optional = (baseOf token != token) := by
  rw [ofToken]

/-- Any number of question marks makes a type optional once. -/
theorem ofToken_marked {base : List Char} (h : base.getLast? ≠ some '?') (marks : Nat) :
    (ofToken (String.ofList (base ++ List.replicate marks '?'))).base = String.ofList base
      ∧ (ofToken (String.ofList (base ++ List.replicate marks '?'))).optional
        = (marks != 0) := by
  refine ⟨baseOf_marked h marks, ?_⟩
  rw [optional_ofToken, baseOf_marked h]
  cases marks with
  | zero => rw [List.replicate_zero, List.append_nil]; exact bne_self_eq_false _
  | succ n =>
      refine bne_iff_ne.mpr ?_
      intro heq
      have hlist : base = base ++ List.replicate (n + 1) '?' := by
        have := congrArg String.toList heq
        rwa [String.toList_ofList, String.toList_ofList] at this
      have hlen := congrArg List.length hlist
      rw [List.length_append, List.length_replicate] at hlen
      omega

/-- The written form of a type reads back as the type. -/
theorem ofToken_text (t : FieldType) : ofToken t.text = t := by
  have hone : t.text
      = String.ofList (t.base.toList ++ List.replicate (if t.optional then 1 else 0) '?') := by
    rw [text]
    by_cases h : t.optional = true
    · rw [if_pos h, if_pos h, String.ofList_append, String.ofList_toList]
      rfl
    · rw [if_neg h, if_neg h, List.replicate_zero, List.append_nil, String.ofList_toList]
  obtain ⟨hbase, hoptional⟩ :=
    ofToken_marked t.base_unmarked (if t.optional then 1 else 0)
  rw [hone]
  refine ext (hbase.trans (String.ofList_toList ..)) (hoptional.trans ?_)
  cases t.optional <;> rfl

theorem withBase_base (t : FieldType) : t.withBase t.base = t :=
  ofToken_text t

end FieldType

/-! ## Models made of pairs -/

/-- A model made of pairs of names and type tokens has the types read from
    them. -/
theorem Model.ofList_eq (pairs : List (String × String)) :
    Model.ofList pairs
      = ⟨Ordered.ofList (pairs.map fun pair => (pair.1, FieldType.ofToken pair.2))⟩ := by
  -- the induction is on the pairs, for every model to start from
  have hgen : ∀ m : Model, pairs.foldl (fun m pair => m.insert pair.1 pair.2) m
      = ⟨m.types.putAll (pairs.map fun pair => (pair.1, FieldType.ofToken pair.2))⟩ := by
    induction pairs with
    | nil => intro m; rfl
    | cons pair pairs ih => intro m; exact ih _
  exact hgen Model.empty

/-- Each field of a model is declared by tokens of its body. -/
theorem Model.exists_declaration {tokens : List String} {entry : String × FieldType}
    (h : entry ∈ (Model.ofTokens tokens).types.toList) :
    ∃ d ∈ declarations tokens, entry = (d.name, FieldType.ofToken d.type) := by
  rw [Model.ofTokens, Model.ofList_eq] at h
  rcases Ordered.mem_putAll h with hempty | hmem
  · cases hempty
  · rw [List.map_map] at hmem
    obtain ⟨d, hd, rfl⟩ := List.mem_map.mp hmem
    exact ⟨d, (List.mem_filter.mp hd).1, rfl⟩

/-! ## Enums under their names -/

/-- Every enum of a schema is stored under its own name. -/
theorem Index.name_of_get?_enumsOf {blocks : List Block} {name : String} {declared : Enum}
    (h : (Index.enumsOf blocks).get? name = some declared) : declared.name = name := by
  rcases Ordered.mem_putAll (Ordered.mem_of_get? h) with hempty | hmem
  · cases hempty
  · obtain ⟨block, -, henum⟩ := List.mem_filterMap.mp hmem
    rw [Block.enum?] at henum
    by_cases hkind : block.header.kind = .enum
    · rw [if_pos hkind] at henum
      cases henum
      rfl
    · rw [if_neg hkind] at henum
      cases henum

theorem FieldType.resolve_enumsOf (blocks : List Block) (t : FieldType) :
    t.resolve (Index.enumsOf blocks) = t := by
  rw [FieldType.resolve]
  cases h : (Index.enumsOf blocks).get? t.base with
  | none => rfl
  | some declared =>
      show t.withBase declared.name = t
      rw [Index.name_of_get?_enumsOf h, t.withBase_base]

theorem Model.resolve_enumsOf (blocks : List Block) (m : Model) :
    m.resolve (Index.enumsOf blocks) = m := by
  obtain ⟨types⟩ := m
  exact congrArg Model.mk
    (Ordered.mapValues_eq_self fun entry _ => entry.2.resolve_enumsOf blocks)

/-- The models of a schema are those of its blocks, one by one. -/
theorem Index.models_ofBlocks (blocks : List Block) :
    (Index.ofBlocks blocks).models = Ordered.ofList (blocks.filterMap Block.model?) := by
  show Ordered.ofList ((blocks.filterMap Block.model?).map fun pair =>
    (pair.1, pair.2.resolve (Index.enumsOf blocks))) = _
  refine congrArg Ordered.ofList ((List.map_congr_left ?_).trans (List.map_id _))
  intro pair _
  rw [Model.resolve_enumsOf]
  rfl

/-- Each model of a schema is declared by the tokens of a body. -/
theorem Index.exists_body {blocks : List Block} {m : Model}
    (h : m ∈ (Index.ofBlocks blocks).models.values) :
    ∃ body : String, m = Model.ofTokens (tokens body) := by
  obtain ⟨entry, hin, rfl⟩ := List.mem_map.mp h
  rw [Index.models_ofBlocks] at hin
  rcases Ordered.mem_putAll hin with hempty | hin
  · cases hempty
  · obtain ⟨b, -, hb⟩ := List.mem_filterMap.mp hin
    obtain rfl := Option.some.inj (Option.ite_none_right_eq_some.mp hb).2
    exact ⟨b.body, rfl⟩

end Stencil.Schema
