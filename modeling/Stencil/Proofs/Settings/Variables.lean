import Mathlib.Data.List.Induction
import Stencil.Proofs.Settings.Overlay
import Stencil.Settings.Variable

/-! # What variables set

    A variable whose name has double underscores after the `MODGEN_` is about a
    setting in a section, never about a section as a whole
    (`nameSettings_of_doubleUnderscores`).  Variables like these make a layer in which
    each setting is what the last variable of its name says
    (`table_of_variables`). -/

namespace Stencil.Settings

open Text (isSpace trimSpace)
open Value

/-! ## Names -/

namespace Variable

theorem length_splitName_pos (cs : List Char) : 0 < (splitName cs).length := by
  fun_cases splitName cs <;> exact Nat.succ_pos _

/-- A name is split where it has double underscores. -/
theorem two_le_length_splitName {cs front back : List Char}
    (h : cs = front ++ '_' :: '_' :: back) : 2 ≤ (splitName cs).length := by
  fun_induction splitName cs generalizing front with
  | case1 => exact absurd h (by simp)
  | case2 rest ih => exact Nat.succ_le_succ (length_splitName_pos rest)
  | case3 rest => exact Nat.succ_le_succ (length_splitName_pos rest)
  | case4 c rest hpair hdot hnil ih =>
      have hpos := length_splitName_pos rest
      rw [hnil] at hpos
      cases hpos
  | case5 c rest hpair hdot part parts hsplit ih =>
      cases front with
      | nil =>
          -- the name would have been split right here
          cases h
          exact absurd rfl (hpair back rfl)
      | cons d front =>
          cases h
          have hrest := ih rfl
          rw [hsplit] at hrest
          exact hrest

theorem dropWhile_append_cons {α : Type} {p : α → Bool} {a : α} (h : p a = false)
    (front back : List α) :
    (front ++ a :: back).dropWhile p = front.dropWhile p ++ a :: back := by
  rw [List.dropWhile_append, List.dropWhile_cons_of_neg (Bool.not_eq_true _ ▸ h)]
  cases hfront : front.dropWhile p <;> rfl

/-- Double underscores stay when white space at the ends of a text goes. -/
theorem trimSpace_doubleUnderscores (front back : List Char) :
    ∃ back' : List Char, trimSpace (front ++ '_' :: '_' :: back)
      = front.dropWhile isSpace ++ '_' :: '_' :: back' := by
  have hspace : isSpace '_' = false := by decide
  refine ⟨(back.reverse.dropWhile isSpace).reverse, ?_⟩
  rw [trimSpace, dropWhile_append_cons hspace]
  simp only [List.reverse_append, List.reverse_cons, List.append_assoc, List.cons_append,
    List.nil_append]
  rw [dropWhile_append_cons hspace]
  simp only [List.reverse_append, List.reverse_cons, List.reverse_reverse, List.append_assoc,
    List.cons_append, List.nil_append]

/-- A variable whose name has double underscores after its first part leads to a
    setting in a section. -/
theorem two_le_length_of_path? {name : String} {front back : List Char}
    (hname : name.toList = namePrefix ++ front ++ '_' :: '_' :: back) {path : List String}
    (h : path? name = some path) : 2 ≤ path.length := by
  obtain ⟨back', htrim⟩ := trimSpace_doubleUnderscores (namePrefix ++ front) back
  have hstart : (namePrefix ++ front).dropWhile isSpace = namePrefix ++ front := rfl
  rw [← hname, hstart, List.append_assoc] at htrim
  unfold path? at h
  dsimp only at h
  rw [htrim, List.take_left, List.drop_left] at h
  obtain ⟨back'', hrest⟩ := trimSpace_doubleUnderscores front back'
  rw [hrest] at h
  split at h
  · split at h
    · cases h
    · cases h
      rw [List.length_map]
      exact two_le_length_splitName rfl
  · cases h

end Variable

/-! ## What variables set -/

/-- What a variable gives a setting of a section.  If its name has more parts, this
    is a table. -/
def variableSetting (part name : String) (entry : String × String) : Option Value :=
  match Variable.path? entry.1 with
  | some (p :: n :: inner) =>
      if p = part ∧ n = name then some (Variable.nest (Variable.read entry.2) inner) else none
  | _ => none

/-- What variables give a setting of a section: what the last one of that name
    does. -/
def variablesSetting (environment : List (String × String)) (part name : String) :
    Option Value :=
  (environment.filterMap (variableSetting part name)).getLast?

/-- Whether variables hold only settings that lie in a section. -/
def NameSettings (environment : List (String × String)) : Prop :=
  ∀ entry ∈ environment, ∀ path ∈ Variable.path? entry.1, 2 ≤ path.length

instance (environment : List (String × String)) : Decidable (NameSettings environment) :=
  inferInstanceAs
    (Decidable (∀ entry ∈ environment, ∀ path ∈ Variable.path? entry.1, 2 ≤ path.length))

/-- Variables named `MODGEN_<section>__<key>` hold settings that lie in a section. -/
theorem nameSettings_of_doubleUnderscores {environment : List (String × String)}
    (h : ∀ entry ∈ environment, Variable.path? entry.1 ≠ none →
      ∃ part key : String, entry.1 = "MODGEN_" ++ part ++ "__" ++ key) :
    NameSettings environment := by
  intro entry hmem path hpath
  obtain ⟨part, key, hname⟩ := h entry hmem (by rw [hpath]; exact Option.some_ne_none path)
  have hchars : entry.1.toList
      = Variable.namePrefix ++ part.toList ++ '_' :: '_' :: key.toList := by
    rw [hname, String.toList_append, String.toList_append, String.toList_append,
      List.append_assoc, List.append_assoc, List.append_assoc]
    rfl
  exact Variable.two_le_length_of_path? hchars hpath

theorem layer_concat (environment : List (String × String)) (last : String × String) :
    Variable.layer (environment ++ [last])
      = match Variable.path? last.1 with
        | some path => (Variable.layer environment).overlay
            (Variable.nest (Variable.read last.2) path)
        | none => Variable.layer environment := by
  rw [Variable.layer, List.foldl_append]
  rfl

theorem variablesSetting_concat (environment : List (String × String))
    (last : String × String) (part name : String) :
    variablesSetting (environment ++ [last]) part name
      = (variableSetting part name last).or (variablesSetting environment part name) := by
  rw [variablesSetting, List.filterMap_append, List.getLast?_append, variablesSetting]
  cases hlast : variableSetting part name last with
  | none => rw [List.filterMap_cons_none hlast]; rfl
  | some value => rw [List.filterMap_cons_some hlast]; rfl

/-- A table with a single setting in a single section. -/
theorem setting_single (p n : String) (value : Value) (part name : String) :
    setting [(p, .table [(n, value)])] part name
      = if p = part ∧ n = name then some value else none := by
  by_cases hp : part = p
  · subst hp
    rw [setting, get?_cons, if_pos rfl]
    by_cases hn : name = n
    · rw [if_pos ⟨rfl, hn.symm⟩]
      exact (get?_cons ..).trans (if_pos hn)
    · rw [if_neg fun h => hn h.2.symm]
      exact (get?_cons ..).trans (if_neg hn)
  · rw [if_neg fun h => hp h.1.symm, setting_of_none]
    exact (get?_cons ..).trans (if_neg hp)

theorem givesTable_single (p n : String) (value : Value) (part : String) :
    GivesTable [(p, .table [(n, value)])] part := by
  intro v hget
  rw [get?_cons] at hget
  by_cases hp : part = p
  · rw [if_pos hp] at hget
    exact ⟨_, (Option.some.inj hget).symm⟩
  · rw [if_neg hp] at hget
    cases hget

theorem namesOnce_single (p n : String) (value : Value) :
    (table [(p, .table [(n, value)])]).NamesOnce 2 := by
  refine ⟨List.pairwise_singleton _ p, fun entry hmem => ?_⟩
  cases List.mem_singleton.mp hmem
  refine ⟨List.pairwise_singleton _ n, fun entry hmem => namesOnce_zero _⟩

/-- The layer of the variables is a table that has of each setting what the
    variables give it. -/
theorem table_of_variables {environment : List (String × String)}
    (h : NameSettings environment) :
    ∃ root, Variable.layer environment = .table root ∧ (table root).NamesOnce 2
      ∧ (∀ part, GivesTable root part)
      ∧ ∀ part name, (setting root part name).map top
          = (variablesSetting environment part name).map top := by
  induction environment using List.reverseRecOn with
  | nil =>
      exact ⟨[], rfl, namesOnce_nil 2, fun part value hget => (nomatch hget),
        fun part name => rfl⟩
  | append_singleton environment last ih =>
      obtain ⟨root, hroot, honce, htables, hsettings⟩ :=
        ih fun entry hmem => h entry (List.mem_append_left _ hmem)
      have hlength := h last (List.mem_append_right _ (List.mem_singleton.mpr rfl))
      rw [layer_concat, hroot]
      simp only [variablesSetting_concat, Option.map_or, ← hsettings]
      cases hpath : Variable.path? last.1 with
      | none =>
          refine ⟨root, rfl, honce, htables, fun part name => ?_⟩
          rw [variableSetting, hpath]
          rfl
      | some path =>
          match path, hpath, hlength path hpath with
          | p :: n :: inner, hpath, _ =>
              have hstep := namesOnce_single p n (Variable.nest (Variable.read last.2) inner)
              refine ⟨_, overlay_table root [(p, .table [(n, _)])],
                namesOnce_overlayEntries namesOnce_overlay honce hstep.2,
                fun part => givesTable_overlayEntries hstep.1 (htables part)
                  (givesTable_single p n _ part), fun part name => ?_⟩
              rw [setting_overlayEntries hstep (htables part) (givesTable_single p n _ part),
                setting_single, variableSetting, hpath]

end Stencil.Settings
