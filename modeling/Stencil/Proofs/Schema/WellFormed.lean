import Mathlib.Data.Finset.Card
import Stencil.Proofs.Schema.Declared
import Stencil.Proofs.Schema.EveryBlock
import Stencil.Proofs.Schema.Pieces

/-! # Well-formed indexes

    Whatever a text looks like, what is read from it is well-formed
    (`Index.WellFormed`): blocks have names, no token is empty, fields are declared by
    tokens that are neither attributes nor braced runs, and a type is marked optional at
    most once.

    The payoff is `read_wellFormed`, with the number of models and enums. -/

namespace Stencil.Schema

/-! ## Fields -/

/-- What is declared are tokens, attributes and braced runs left out. -/
theorem mem_of_mem_declarations {ts : List String} :
    ∀ d ∈ declarations ts, ∀ token ∈ [d.name, d.type],
      token ∈ ts ∧ isAttribute token = false ∧ isBraced token = false := by
  induction ts using declarations.induct with
  | case1 => exact fun d hmem => absurd hmem List.not_mem_nil
  | case2 token => exact fun d hmem => absurd hmem List.not_mem_nil
  | case3 name type rest hpass ih =>
      rw [declarations, if_pos hpass]
      intro d hmem token htoken
      exact (ih d hmem token htoken).imp_left (List.mem_cons_of_mem _)
  | case4 name type rest hpass hbraced ih =>
      rw [declarations, if_neg hpass, if_pos hbraced]
      intro d hmem token htoken
      exact (ih d hmem token htoken).imp_left fun h =>
        List.mem_cons_of_mem _ (List.mem_cons_of_mem _ h)
  | case5 name type rest hpass hbraced ih =>
      rw [declarations, if_neg hpass, if_neg hbraced]
      simp only [Bool.or_eq_true, not_or, Bool.not_eq_true] at hpass hbraced
      intro d hmem token htoken
      rcases List.mem_cons.mp hmem with rfl | hmem
      · rcases List.mem_pair.mp htoken with rfl | rfl
        · exact ⟨List.mem_cons_self .., hpass.1.1, hpass.1.2⟩
        · exact ⟨List.mem_cons_of_mem _ (List.mem_cons_self ..), hpass.2, hbraced⟩
      · exact (ih d hmem token htoken).imp_left fun h =>
          List.mem_cons_of_mem _ (List.mem_cons_of_mem _ h)

/-- Whether a text may be the name or the type of a field. -/
structure Declarable (token : String) : Prop where
  nonempty : token ≠ ""
  plain : isAttribute token = false
  unbraced : isBraced token = false

theorem declarable_of_mem_declarations {ts : List String} (hts : ∀ token ∈ ts, token ≠ "") :
    ∀ d ∈ declarations ts, Declarable d.name ∧ Declarable d.type := by
  intro d hmem
  have hdeclared : ∀ token ∈ [d.name, d.type], Declarable token := by
    intro token htoken
    obtain ⟨hin, hplain, hunbraced⟩ := mem_of_mem_declarations d hmem token htoken
    exact ⟨hts token hin, hplain, hunbraced⟩
  exact ⟨hdeclared d.name (List.mem_cons_self ..),
    hdeclared d.type (List.mem_cons_of_mem _ (List.mem_cons_self ..))⟩

/-- A type is written with one question mark at most. -/
theorem FieldType.not_marked_twice (t : FieldType) : ¬ ['?', '?'] <:+ t.text.toList := by
  rintro ⟨front, h⟩
  have hmark : front ++ ['?', '?'] = (front ++ ['?']) ++ ['?'] := by
    rw [List.append_assoc]
    rfl
  have hunmarked := t.base_unmarked
  rw [FieldType.text, hmark] at h
  split at h
  · rw [String.toList_append] at h
    have hbase : front ++ ['?'] = t.base.toList := List.append_inj_left' h rfl
    rw [← hbase, List.getLast?_concat] at hunmarked
    exact hunmarked rfl
  · rw [← h, List.getLast?_concat] at hunmarked
    exact hunmarked rfl

/-- Stripping leaves the front of a text. -/
theorem stripTrailing_prefix (c : Char) (cs : List Char) : Text.stripTrailing c cs <+: cs := by
  have h : (cs.reverse.dropWhile (· = c)).reverse <+: cs.reverse.reverse :=
    List.reverse_prefix.mpr (List.dropWhile_suffix _)
  rwa [List.reverse_reverse] at h

/-- Whether a text is declarable is seen from its first character. -/
theorem declarable_iff {token : String} :
    Declarable token ↔ ∃ c : Char, token.toList.head? = some c ∧ c ≠ '@' ∧ c ≠ '{' := by
  constructor
  · rintro ⟨hne, hplain, hunbraced⟩
    cases hlist : token.toList with
    | nil => exact absurd (String.toList_eq_nil_iff.mp hlist) hne
    | cons c rest =>
        rw [isAttribute, hlist] at hplain
        rw [isBraced, hlist] at hunbraced
        exact ⟨c, rfl, fun hc => of_decide_eq_false hplain (congrArg some hc),
          fun hc => of_decide_eq_false hunbraced (congrArg some hc)⟩
  · rintro ⟨c, hhead, hat, hbrace⟩
    refine ⟨?_, ?_, ?_⟩
    · rintro rfl
      cases hhead
    · rw [isAttribute, hhead]
      exact decide_eq_false fun h => hat (Option.some.inj h)
    · rw [isBraced, hhead]
      exact decide_eq_false fun h => hbrace (Option.some.inj h)

/-- A type that is read from a declarable token is declarable. -/
theorem Declarable.text_ofToken {token : String} (h : Declarable token) :
    Declarable (FieldType.ofToken token).text := by
  have hbase : (FieldType.ofToken token).base.toList = Text.stripTrailing '?' token.toList := by
    show (FieldType.baseOf token).toList = _
    rw [FieldType.baseOf, String.toList_ofList]
  by_cases hoptional : (FieldType.ofToken token).optional = true
  · rw [declarable_iff, FieldType.text, if_pos hoptional, String.toList_append, hbase]
    obtain ⟨rest, hrest⟩ := stripTrailing_prefix '?' token.toList
    cases hstripped : Text.stripTrailing '?' token.toList with
    | nil => exact ⟨'?', rfl, by decide, by decide⟩
    | cons c base =>
        obtain ⟨d, hhead, hne⟩ := declarable_iff.mp h
        rw [← hrest, hstripped] at hhead
        exact ⟨d, hhead, hne⟩
  · rw [FieldType.text, if_neg hoptional]
    rw [FieldType.optional_ofToken, Bool.not_eq_true, bne_eq_false_iff_eq] at hoptional
    show Declarable (FieldType.baseOf token)
    rw [hoptional]
    exact h

/-! ## Models and enums -/

/-- Whether a model has fields that may be declared, each of them once. -/
structure Model.WellFormed (m : Model) : Prop where
  nodup : m.types.keys.Nodup
  names : ∀ name ∈ m.types.keys, Declarable name
  types : ∀ t ∈ m.types.values, Declarable t.text ∧ ¬ ['?', '?'] <:+ t.text.toList

/-- Whether an enum has values that may be declared, each of them once. -/
structure Enum.WellFormed (e : Enum) : Prop where
  nodup : e.values.Nodup
  values : ∀ value ∈ e.values, value ≠ "" ∧ isAttribute value = false

/-- What tokens declare is a well-formed model. -/
theorem Model.wellFormed_ofTokens {ts : List String} (hts : ∀ token ∈ ts, token ≠ "") :
    (Model.ofTokens ts).WellFormed := by
  have hentry : ∀ entry ∈ (Model.ofTokens ts).types.toList,
      Declarable entry.1 ∧ Declarable entry.2.text := by
    intro entry hmem
    obtain ⟨d, hd, rfl⟩ := Model.exists_declaration hmem
    obtain ⟨hname, htype⟩ := declarable_of_mem_declarations hts d hd
    exact ⟨hname, htype.text_ofToken⟩
  refine ⟨(Model.ofTokens ts).types.nodup_keys, ?_, ?_⟩
  · intro name hmem
    obtain ⟨entry, hin, rfl⟩ := List.mem_map.mp hmem
    exact (hentry entry hin).1
  · intro t hmem
    obtain ⟨entry, hin, rfl⟩ := List.mem_map.mp hmem
    exact ⟨(hentry entry hin).2, entry.2.not_marked_twice⟩

/-- What is left after duplicates are erased has none. -/
theorem nodup_eraseDups (ts : List String) : ts.eraseDups.Nodup := by
  -- the rest is shorter each time, but no part of the list
  induction hlength : ts.length using Nat.strong_induction_on generalizing ts with
  | _ n ih =>
      cases ts with
      | nil => exact List.nodup_nil
      | cons token ts =>
          have hshorter : (ts.filter fun t => !t == token).length < n :=
            hlength ▸ Nat.lt_succ_of_le (List.length_filter_le _ ts)
          rw [List.eraseDups_cons, List.nodup_cons]
          refine ⟨fun hmem => ?_, ih _ hshorter _ rfl⟩
          have hkept := (List.mem_filter.mp (List.mem_eraseDups.mp hmem)).2
          rw [beq_self_eq_true] at hkept
          cases hkept

/-- What tokens declare is a well-formed enum. -/
theorem Enum.wellFormed_ofTokens (name : String) {ts : List String}
    (hts : ∀ token ∈ ts, token ≠ "") : (Enum.ofTokens name ts).WellFormed where
  nodup := nodup_eraseDups _
  values := by
    intro value hmem
    obtain ⟨hmem, hplain⟩ := List.mem_filter.mp (List.mem_eraseDups.mp hmem)
    exact ⟨hts value hmem, Bool.not_eq_true' _ ▸ hplain⟩

/-! ## Indexes -/

/-- The names of the blocks of a kind, in order. -/
def namesOf (kind : BlockKind) (found : List Block) : List String :=
  (found.filter fun b => b.header.kind = kind).map fun b => b.header.name

/-- Whether an index has well-formed models and enums, under names that blocks can have. -/
structure Index.WellFormed (index : Index) : Prop where
  models_nodup : index.models.keys.Nodup
  enums_nodup : index.enums.keys.Nodup
  model_names : ∀ name ∈ index.models.keys, IsName name.toList
  enum_names : ∀ name ∈ index.enums.keys, IsName name.toList
  models : ∀ m ∈ index.models.values, m.WellFormed
  enums : ∀ e ∈ index.enums.values, e.WellFormed
  /-- An enum is stored under its own name. -/
  own_names : ∀ entry ∈ index.enums.toList, entry.2.name = entry.1

/-- The blocks of a text have names. -/
theorem isName_of_mem_blocks {text : String} {found : List Block} (h : blocks text = .ok found)
    {b : Block} (hb : b ∈ found) : IsName b.header.name.toList := by
  have hmem : b ∈ (Scan.start.run text.toList).found := by
    rw [(of_blocks h).2]
    exact List.mem_reverse.mpr hb
  obtain ⟨newer, older, hfound⟩ := List.append_of_mem hmem
  obtain ⟨before, block, ⟨-, ⟨gap, gap', -, -, hname, -⟩, -⟩, -⟩ :=
    (Scan.reads text.toList).found newer older b hfound
  exact hname

/-- The names under which blocks of a kind declare something. -/
theorem map_fst_declared {β : Type} (kind : BlockKind) (declare : Block → β)
    (found : List Block) :
    (found.filterMap fun b =>
        if b.header.kind = kind then some (b.header.name, declare b) else none).map Prod.fst
      = namesOf kind found := by
  induction found with
  | nil => rfl
  | cons b found ih =>
      rw [namesOf] at ih ⊢
      by_cases hkind : b.header.kind = kind
      · rw [List.filterMap_cons, if_pos hkind, List.filter_cons, if_pos (decide_eq_true hkind),
          List.map_cons, List.map_cons, ih]
      · rw [List.filterMap_cons, if_neg hkind, List.filter_cons,
          if_neg fun h => hkind (of_decide_eq_true h), ih]

/-- A map made of pairs has as many keys as the pairs have different ones. -/
theorem size_ofList {β : Type} (pairs : List (String × β)) :
    (Ordered.ofList pairs).size = (pairs.map Prod.fst).toFinset.card := by
  have hkeys : (Ordered.ofList pairs).keys.toFinset = (pairs.map Prod.fst).toFinset := by
    ext key
    rw [List.mem_toFinset, List.mem_toFinset, Ordered.mem_keys_ofList]
  rw [← hkeys, Ordered.keys, List.toFinset_card_of_nodup (Ordered.ofList pairs).nodup_keys,
    List.length_map, Ordered.size]

/-- What blocks with names declare is a well-formed index. -/
theorem Index.wellFormed_ofBlocks {found : List Block}
    (hnames : ∀ b ∈ found, IsName b.header.name.toList) : (Index.ofBlocks found).WellFormed := by
  have hkeys : ∀ {kind : BlockKind} {name : String}, name ∈ namesOf kind found →
      IsName name.toList := by
    intro kind name hmem
    obtain ⟨b, hb, rfl⟩ := List.mem_map.mp hmem
    exact hnames b (List.mem_filter.mp hb).1
  refine ⟨(Index.ofBlocks found).models.nodup_keys, (Index.ofBlocks found).enums.nodup_keys,
    ?_, ?_, ?_, ?_, ?_⟩
  · intro name hmem
    rw [Index.models_ofBlocks, Ordered.mem_keys_ofList] at hmem
    exact hkeys (map_fst_declared .model _ found ▸ hmem)
  · intro name hmem
    have hmem : name ∈ (Ordered.ofList (found.filterMap Block.enum?)).keys := hmem
    rw [Ordered.mem_keys_ofList] at hmem
    exact hkeys (map_fst_declared .enum _ found ▸ hmem)
  · intro m hmem
    obtain ⟨body, rfl⟩ := Index.exists_body hmem
    exact Model.wellFormed_ofTokens fun token => ne_empty_of_mem_tokens
  · intro e hmem
    obtain ⟨entry, hin, rfl⟩ := List.mem_map.mp hmem
    rcases Ordered.mem_putAll hin with hempty | hin
    · cases hempty
    · obtain ⟨b, -, hb⟩ := List.mem_filterMap.mp hin
      obtain rfl := Option.some.inj (Option.ite_none_right_eq_some.mp hb).2
      exact Enum.wellFormed_ofTokens _ fun token => ne_empty_of_mem_tokens
  · intro entry hin
    have hstored : (Index.enumsOf found).get? entry.1 = some entry.2 := Ordered.get?_of_mem hin
    exact Index.name_of_get?_enumsOf hstored

/-- **Indexes are well-formed.**  What is read from a text, whatever the text looks like,
    is a well-formed index, and has as many models and enums as its blocks of these kinds
    have different names. -/
theorem read_wellFormed {text : String} {index : Index} (h : Index.read text = .ok index) :
    index.WellFormed ∧ ∃ found : List Block, blocks text = .ok found
      ∧ index.models.size = (namesOf .model found).toFinset.card
      ∧ index.enums.size = (namesOf .enum found).toFinset.card := by
  rw [Index.read] at h
  cases hfound : blocks text with
  | error opened =>
      rw [hfound] at h
      cases h
  | ok found =>
      rw [hfound] at h
      obtain rfl : Index.ofBlocks found = index := Except.ok.inj h
      refine ⟨Index.wellFormed_ofBlocks fun b hb => isName_of_mem_blocks hfound hb, found, rfl,
        ?_, ?_⟩
      · rw [Index.models_ofBlocks, size_ofList]
        exact congrArg (fun names => names.toFinset.card) (map_fst_declared .model _ found)
      · show (Ordered.ofList (found.filterMap Block.enum?)).size = _
        rw [size_ofList]
        exact congrArg (fun names => names.toFinset.card) (map_fst_declared .enum _ found)

/-- A type marked twice, a value given twice, and an enum that is declared twice. -/
theorem read_wellFormed_twice :
    ∃ index : Index,
      Index.read "model A\x7ba B??\x7denum B\x7bX X\x7denum B\x7b\x7d" = .ok index
        ∧ index.WellFormed ∧ index.models.size = 1 ∧ index.enums.size = 1 := by
  have hread : Index.read "model A\x7ba B??\x7denum B\x7bX X\x7denum B\x7b\x7d"
      = .ok (Index.ofBlocks [⟨⟨.model, "A", 0⟩, "a B??"⟩, ⟨⟨.enum, "B", 14⟩, "X X"⟩,
        ⟨⟨.enum, "B", 25⟩, ""⟩]) := rfl
  exact ⟨_, hread, (read_wellFormed hread).1, rfl, rfl⟩

end Stencil.Schema
