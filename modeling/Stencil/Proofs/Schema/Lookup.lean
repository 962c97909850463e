import Stencil.Proofs.PascalCase
import Stencil.Proofs.Schema.DeclaredModels

/-! # Looking up a model

    What a user types means the model of exactly this name, else the model of its
    Pascal-case spelling, else the earliest model whose name is this spelling in
    another case (`Index.Means`).

    So separators do not matter when a model is looked up whose name has no
    underscore (`find?_ignoring_separators`).  Case does not matter to such a model
    either.  But the names are compared with the Pascal-case spelling, in which there
    is no underscore: a name with an underscore is found as it stands, and in no other
    case (`find?_ignoring_case_iff`). -/

namespace Stencil.Schema

open Stencil.Text

/-! ## Texts in different case -/

namespace Index

variable {a b c : String}

theorem sameIgnoringCase_iff :
    sameIgnoringCase a b = true ↔ a.toList.map Char.toLower = b.toList.map Char.toLower :=
  decide_eq_true_iff

theorem sameIgnoringCase_refl (a : String) : sameIgnoringCase a a = true :=
  sameIgnoringCase_iff.mpr rfl

theorem sameIgnoringCase_trans (h : sameIgnoringCase a b = true)
    (h' : sameIgnoringCase b c = true) : sameIgnoringCase a c = true :=
  sameIgnoringCase_iff.mpr ((sameIgnoringCase_iff.mp h).trans (sameIgnoringCase_iff.mp h'))

theorem sameIgnoringCase_symm (h : sameIgnoringCase a b = true) : sameIgnoringCase b a = true :=
  sameIgnoringCase_iff.mpr (sameIgnoringCase_iff.mp h).symm

/-- A character of one text stands in the other one in some case. -/
theorem exists_toLower_eq (h : sameIgnoringCase a b = true) {x : Char} (hx : x ∈ a.toList) :
    ∃ y ∈ b.toList, x.toLower = y.toLower := by
  have hlower : x.toLower ∈ b.toList.map Char.toLower :=
    sameIgnoringCase_iff.mp h ▸ List.mem_map_of_mem hx
  obtain ⟨y, hy, hsame⟩ := List.mem_map.mp hlower
  exact ⟨y, hy, hsame.symm⟩

end Index

open Index (sameIgnoringCase sameIgnoringCase_iff exists_toLower_eq)

/-- A text without its underscores. -/
def withoutUnderscores (text : String) : String :=
  String.ofList (text.toList.filter fun c => c ≠ '_')

theorem map_toLower_withoutUnderscores (text : String) :
    (withoutUnderscores text).toList.map Char.toLower
      = (text.toList.map Char.toLower).filter fun c => c ≠ '_' := by
  rw [withoutUnderscores, String.toList_ofList, List.filter_map]
  refine congrArg (List.map Char.toLower) (List.filter_congr ?_)
  intro c _
  exact decide_eq_decide.mpr (not_congr toLower_eq_underscore_iff).symm

theorem sameIgnoringCase_withoutUnderscores {a b : String} (h : sameIgnoringCase a b = true) :
    sameIgnoringCase (withoutUnderscores a) (withoutUnderscores b) = true := by
  rw [sameIgnoringCase_iff] at h ⊢
  rw [map_toLower_withoutUnderscores, map_toLower_withoutUnderscores, h]

theorem not_mem_withoutUnderscores (text : String) : '_' ∉ (withoutUnderscores text).toList := by
  rw [withoutUnderscores, String.toList_ofList]
  intro hmem
  exact of_decide_eq_true (List.mem_filter.mp hmem).2 rfl

/-- An underscore has no other case. -/
theorem underscore_mem_of_same {a b : String} (h : sameIgnoringCase a b = true)
    (hmem : '_' ∈ a.toList) : '_' ∈ b.toList := by
  obtain ⟨c, hc, hunderscore⟩ := exists_toLower_eq h hmem
  exact toLower_eq_underscore_iff.mp hunderscore.symm ▸ hc

theorem withoutUnderscores_eq_self {text : String} (h : '_' ∉ text.toList) :
    withoutUnderscores text = text := by
  rw [withoutUnderscores, List.filter_eq_self.mpr, String.ofList_toList]
  intro c hmem
  rw [decide_eq_true_iff]
  rintro rfl
  exact h hmem

/-! ## Names -/

theorem isAlphanum_of_isNameChar {c : Char} (h : isNameChar c = true) (hne : c ≠ '_') :
    c.isAlphanum = true := by
  rw [isNameChar, decide_eq_false hne, Bool.or_false] at h
  exact h

/-- In a name, underscores are the only separators. -/
theorem isSeparator_of_isNameChar {c : Char} (h : isNameChar c = true) :
    isSeparator c = decide (c = '_') := by
  by_cases hc : c = '_'
  · subst hc
    rfl
  · rw [decide_eq_false hc]
    exact (isWordPart_of_isAlphanum (isAlphanum_of_isNameChar h hc)).not_separator

theorem unseparated_of_name {name : String} (h : ∀ c ∈ name.toList, isNameChar c = true) :
    unseparated name = withoutUnderscores name := by
  rw [unseparated, withoutUnderscores]
  refine congrArg String.ofList (List.filter_congr ?_)
  intro c hmem
  rw [isSeparator_of_isNameChar (h c hmem), decide_not]

/-- A name in other case is a name. -/
theorem isNameChar_of_sameIgnoringCase {a b : String} (h : sameIgnoringCase a b = true)
    (hb : ∀ c ∈ b.toList, isNameChar c = true) : ∀ c ∈ a.toList, isNameChar c = true := by
  intro c hmem
  obtain ⟨d, hd, hsame⟩ := exists_toLower_eq h hmem
  by_cases hunderscore : d = '_'
  · subst hunderscore
    rw [toLower_eq_underscore_iff.mp hsame]
    rfl
  · rw [isNameChar, Bool.or_eq_true]
    exact Or.inl (isAlphanum_of_toLower_eq hsame
      (isAlphanum_of_isNameChar (hb d hd) hunderscore))

/-- A text that comes to a name without its separators has the name for its Pascal-case spelling,
    in some case. -/
theorem sameIgnoringCase_pascalCase {text name : String}
    (hname : ∀ c ∈ name.toList, c.isAlphanum = true)
    (h : sameIgnoringCase (unseparated text) name = true) :
    sameIgnoringCase (pascalCase text) name = true := by
  refine sameIgnoringCase_iff.mpr ((map_toLower_pascalCase ?_).trans (sameIgnoringCase_iff.mp h))
  intro c hmem hseparator
  have hkept : c ∈ (unseparated text).toList := by
    rw [unseparated, String.toList_ofList]
    exact List.mem_filter.mpr ⟨hmem, congrArg not hseparator⟩
  obtain ⟨d, hd, hsame⟩ := exists_toLower_eq h hkept
  exact isAlphanum_of_toLower_eq hsame (hname d hd)

/-- The Pascal-case spelling of a name is the name without its underscores, in some case. -/
theorem sameIgnoringCase_pascalCase_of_name {name : String}
    (h : ∀ c ∈ name.toList, isNameChar c = true) :
    sameIgnoringCase (pascalCase name) (withoutUnderscores name) = true := by
  rw [sameIgnoringCase_iff, ← unseparated_of_name h]
  refine map_toLower_pascalCase ?_
  intro c hmem hseparator
  rw [isSeparator_of_isNameChar (h c hmem)] at hseparator
  exact isAlphanum_of_isNameChar (h c hmem) (of_decide_eq_false hseparator)

/-! ## What a lookup finds -/

namespace Index

/-- Whether a text means the model of a name.  The three ways come one after the other: each one
    counts if nothing is declared for the ways before it. -/
inductive Means (index : Index) (text : String) : String → Prop where
  /-- The text is a declared name. -/
  | itself : text ∈ index.models.keys → Means index text text
  /-- Its Pascal-case spelling is one. -/
  | spelling : text ∉ index.models.keys → pascalCase text ∈ index.models.keys →
      Means index text (pascalCase text)
  /-- The name is the first one that is the Pascal-case spelling in some case. -/
  | earliest {name : String} {earlier later : List String} :
      text ∉ index.models.keys → pascalCase text ∉ index.models.keys →
      index.models.keys = earlier ++ name :: later →
      sameIgnoringCase name (pascalCase text) = true →
      (∀ other ∈ earlier, sameIgnoringCase other (pascalCase text) = false) →
      Means index text name

variable {index : Index} {text name d : String} {model : Model}

theorem model?_eq_none (h : index.model? name = none) : name ∉ index.models.keys := by
  intro hmem
  obtain ⟨model, hmodel⟩ := Ordered.mem_keys_iff.mp hmem
  rw [model?, hmodel] at h
  cases h

/-- What a lookup finds is a declared model that the text means. -/
theorem means_of_find? (h : index.find? text = some (name, model)) :
    index.Means text name ∧ index.model? name = some model := by
  simp only [find?] at h
  split at h
  next found hfound =>
    cases h
    exact ⟨.itself (Ordered.mem_keys_iff.mpr ⟨_, hfound⟩), hfound⟩
  next hnone =>
    split at h
    next found hfound =>
      cases h
      exact ⟨.spelling (model?_eq_none hnone) (Ordered.mem_keys_iff.mpr ⟨_, hfound⟩), hfound⟩
    next hnone' =>
      obtain ⟨hsame, earlier, later, hsplit, hearlier⟩ := List.find?_eq_some_iff_append.mp h
      have hmem : (name, model) ∈ index.models.toList :=
        hsplit ▸ List.mem_append_right _ (List.mem_cons_self ..)
      have hkeys : index.models.keys = earlier.map Prod.fst ++ name :: later.map Prod.fst := by
        rw [Ordered.keys, hsplit, List.map_append, List.map_cons]
      refine ⟨.earliest (model?_eq_none hnone) (model?_eq_none hnone') hkeys hsame ?_,
        Ordered.get?_of_mem hmem⟩
      intro other hother
      obtain ⟨pair, hpair, rfl⟩ := List.mem_map.mp hother
      exact (Bool.not_eq_true' _).mp (hearlier pair hpair)

/-- A lookup finds something if the text is declared, or its Pascal-case spelling in some case. -/
theorem exists_find? (hd : d ∈ index.models.keys)
    (h : text ∈ index.models.keys ∨ sameIgnoringCase d (pascalCase text) = true) :
    ∃ (name : String) (model : Model), index.find? text = some (name, model) := by
  suffices hsome : index.find? text ≠ none by
    obtain ⟨⟨name, model⟩, hfound⟩ := Option.ne_none_iff_exists'.mp hsome
    exact ⟨name, model, hfound⟩
  intro hnone
  simp only [find?] at hnone
  split at hnone
  next => cases hnone
  next htext =>
    split at hnone
    next => cases hnone
    next =>
      obtain ⟨pair, hpair, rfl⟩ := List.mem_map.mp hd
      rcases h with hdeclared | hsame
      · exact model?_eq_none htext hdeclared
      · exact List.find?_eq_none.mp hnone pair hpair hsame

/-- The name that is found is the text itself, or its Pascal-case spelling in some case. -/
theorem Means.eq_or_same (h : index.Means text name) :
    name = text ∧ text ∈ index.models.keys
      ∨ text ∉ index.models.keys ∧ sameIgnoringCase name (pascalCase text) = true := by
  cases h with
  | itself hdeclared => exact Or.inl ⟨rfl, hdeclared⟩
  | spelling hnot _ => exact Or.inr ⟨hnot, sameIgnoringCase_refl _⟩
  | earliest hnot _ _ hsame _ => exact Or.inr ⟨hnot, hsame⟩

/-! ## Lookups in spite of case and separators -/

variable {source : String}

theorem isName_of_mem_keys (hread : Index.read source = .ok index)
    (hd : d ∈ index.models.keys) : IsName d.toList := by
  obtain ⟨found, hfound, rfl⟩ := Index.blocks_of_read hread
  exact (Index.wellFormed_ofBlocks fun b hb => isName_of_mem_blocks hfound hb).model_names d hd

/-- **Separators do not matter.**  Where a name without underscores is declared, a text that comes
    to this name without its separators, in whatever case, finds a model: its own if it is itself
    declared, else that of its Pascal-case spelling, else the first one whose name is this
    spelling in some case.  Without underscores, the name that is found is the same, too. -/
theorem find?_ignoring_separators (hread : Index.read source = .ok index)
    (hd : d ∈ index.models.keys) (hplain : '_' ∉ d.toList)
    (htext : sameIgnoringCase (unseparated text) d = true) :
    ∃ (name : String) (model : Model), index.find? text = some (name, model)
      ∧ index.model? name = some model
      ∧ sameIgnoringCase (withoutUnderscores name) d = true
      ∧ (text ∈ index.models.keys → name = text)
      ∧ (text ∉ index.models.keys → pascalCase text ∈ index.models.keys →
        name = pascalCase text)
      ∧ (text ∉ index.models.keys → pascalCase text ∉ index.models.keys →
        ∃ earlier later : List String, index.models.keys = earlier ++ name :: later
          ∧ sameIgnoringCase name (pascalCase text) = true
          ∧ ∀ other ∈ earlier, sameIgnoringCase other (pascalCase text) = false) := by
  have halphanum : ∀ c ∈ d.toList, c.isAlphanum = true := by
    intro c hmem
    refine isAlphanum_of_isNameChar ((isName_of_mem_keys hread hd).2 c hmem) ?_
    rintro rfl
    exact hplain hmem
  have hpascal := sameIgnoringCase_pascalCase halphanum htext
  obtain ⟨name, model, hfind⟩ := exists_find? hd (Or.inr (sameIgnoringCase_symm hpascal))
  obtain ⟨hmeans, hmodel⟩ := means_of_find? hfind
  have hname : sameIgnoringCase (withoutUnderscores name) d = true := by
    rcases hmeans.eq_or_same with ⟨rfl, hdeclared⟩ | ⟨-, hsame⟩
    · rw [← unseparated_of_name (isName_of_mem_keys hread hdeclared).2]
      exact htext
    · have hsame' := sameIgnoringCase_withoutUnderscores (sameIgnoringCase_trans hsame hpascal)
      rw [withoutUnderscores_eq_self hplain] at hsame'
      exact hsame'
  refine ⟨name, model, hfind, hmodel, hname, ?_⟩
  cases hmeans with
  | itself hdeclared =>
      exact ⟨fun _ => rfl, fun hnot => absurd hdeclared hnot, fun hnot => absurd hdeclared hnot⟩
  | spelling hnot hspelling =>
      exact ⟨fun hdeclared => absurd hdeclared hnot, fun _ _ => rfl,
        fun _ hnot' => absurd hspelling hnot'⟩
  | earliest hnot hnot' hkeys hsame hearlier =>
      exact ⟨fun hdeclared => absurd hdeclared hnot, fun _ hspelling => absurd hspelling hnot',
        fun _ _ => ⟨_, _, hkeys, hsame, hearlier⟩⟩

/-- Two names are the spelling in another case, and the first of them is found. -/
theorem find?_ignoring_separators_first :
    ∃ index : Index, Index.read "model a_b\x7b\x7dmodel aB\x7b\x7dmodel Ab\x7b\x7d" = .ok index
      ∧ "Ab" ∈ index.models.keys ∧ '_' ∉ "Ab".toList
      ∧ sameIgnoringCase (unseparated "a\u3000-b") "Ab" = true
      ∧ ∃ model : Model, index.find? "a\u3000-b" = some ("aB", model)
        ∧ index.model? "aB" = some model
        ∧ sameIgnoringCase (withoutUnderscores "aB") "Ab" = true := by
  have hread : Index.read "model a_b\x7b\x7dmodel aB\x7b\x7dmodel Ab\x7b\x7d"
      = .ok (Index.ofBlocks [⟨⟨.model, "a_b", 0⟩, ""⟩, ⟨⟨.model, "aB", 11⟩, ""⟩,
        ⟨⟨.model, "Ab", 21⟩, ""⟩]) := rfl
  have hplain : '_' ∉ "Ab".toList := by decide
  have hsame : sameIgnoringCase (unseparated "a\u3000-b") "Ab" = true := by decide
  obtain ⟨name, model, hfind, hmodel, hname, -⟩ :=
    find?_ignoring_separators (d := "Ab") hread (by decide) hplain hsame
  obtain rfl : "aB" = name := by
    have hfirst : some "aB" = some name :=
      calc some "aB" = (Index.find? _ "a\u3000-b").map Prod.fst := by decide +kernel
        _ = some name := congrArg (Option.map Prod.fst) hfind
    exact Option.some.inj hfirst
  exact ⟨_, hread, by decide, hplain, hsame, model, hfind, hmodel, hname⟩

/-- **Case matters to names with underscores.**  Where a name is declared, a text that is this name
    in some case finds a model whose name is the text in some case, if the name has no underscore
    or the text is declared itself.  Otherwise it finds no such model. -/
theorem find?_ignoring_case_iff (hread : Index.read source = .ok index)
    (hd : d ∈ index.models.keys) (htext : sameIgnoringCase text d = true) :
    (∃ (name : String) (model : Model), index.find? text = some (name, model)
        ∧ index.model? name = some model ∧ sameIgnoringCase name text = true)
      ↔ '_' ∉ d.toList ∨ text ∈ index.models.keys := by
  have hpascal := sameIgnoringCase_pascalCase_of_name
    (isNameChar_of_sameIgnoringCase htext (isName_of_mem_keys hread hd).2)
  constructor
  · rintro ⟨name, model, hfind, -, hname⟩
    rcases (means_of_find? hfind).1.eq_or_same with ⟨-, hdeclared⟩ | ⟨-, hsame⟩
    · exact Or.inr hdeclared
    · refine Or.inl fun hmem => not_mem_withoutUnderscores text ?_
      -- an underscore of the name would stand in the Pascal-case spelling, too
      have hback : sameIgnoringCase d (pascalCase text) = true :=
        sameIgnoringCase_trans (sameIgnoringCase_symm htext)
          (sameIgnoringCase_trans (sameIgnoringCase_symm hname) hsame)
      exact underscore_mem_of_same hpascal (underscore_mem_of_same hback hmem)
  · intro h
    have hreach : text ∈ index.models.keys ∨ sameIgnoringCase (pascalCase text) d = true := by
      rcases h with hplain | hdeclared
      · have hwithout := sameIgnoringCase_withoutUnderscores htext
        rw [withoutUnderscores_eq_self hplain] at hwithout
        exact Or.inr (sameIgnoringCase_trans hpascal hwithout)
      · exact Or.inl hdeclared
    obtain ⟨name, model, hfind⟩ := exists_find? hd (hreach.imp_right sameIgnoringCase_symm)
    obtain ⟨hmeans, hmodel⟩ := means_of_find? hfind
    refine ⟨name, model, hfind, hmodel, ?_⟩
    rcases hmeans.eq_or_same with ⟨rfl, -⟩ | ⟨hnot, hsame⟩
    · exact sameIgnoringCase_refl name
    · have hspelling := hreach.resolve_left hnot
      exact sameIgnoringCase_trans (sameIgnoringCase_trans hsame hspelling)
        (sameIgnoringCase_symm htext)

/-- A name without underscores is found in other case. -/
theorem find?_ignoring_case_iff_user :
    ∃ index : Index, Index.read "model User\x7b\x7d" = .ok index
      ∧ "User" ∈ index.models.keys ∧ sameIgnoringCase "uSER" "User" = true
      ∧ ∃ (name : String) (model : Model), index.find? "uSER" = some (name, model)
        ∧ index.model? name = some model ∧ sameIgnoringCase name "uSER" = true := by
  have hread : Index.read "model User\x7b\x7d"
      = .ok (Index.ofBlocks [⟨⟨.model, "User", 0⟩, ""⟩]) := rfl
  have hsame : sameIgnoringCase "uSER" "User" = true := by decide
  exact ⟨_, hread, by decide, hsame,
    (find?_ignoring_case_iff hread (by decide) hsame).mpr (Or.inl (by decide))⟩

/-- A name with an underscore is not found in capitals. -/
theorem find?_misses_underscore :
    ∃ index : Index, Index.read "model blog_post\x7b\x7d" = .ok index
      ∧ "blog_post" ∈ index.models.keys
      ∧ sameIgnoringCase "BLOG_POST" "blog_post" = true
      ∧ index.find? "BLOG_POST" = none := by
  have hread : Index.read "model blog_post\x7b\x7d"
      = .ok (Index.ofBlocks [⟨⟨.model, "blog_post", 0⟩, ""⟩]) := rfl
  exact ⟨_, hread, by decide, by decide, by decide +kernel⟩

end Index

end Stencil.Schema
