import Stencil.Proofs.Settings.Names
import Stencil.Settings.Basic

/-! # What tables laid over each other hold

    A table laid over another one holds, under each name, what the two hold there,
    laid over each other (`Value.get?_overlayEntries`).  Two levels down this says
    that a setting of a section is the one of the upper table if that table has
    it, and else the one of the lower table, whatever else stands in the section
    (`setting_overlayEntries`).

    If both have it and both values are tables, these are merged once more; but a
    table is no valid value of any setting, so a value may be taken without what
    is inside it (`Value.top`). -/

namespace Stencil.Settings

variable {lower upper : List (String × Value)} {part name : String}

namespace Value

theorem get?_putEntry (name k : String) (value : Value) (entries : List (String × Value)) :
    get? (putEntry name value entries) k = if k = name then some value else get? entries k :=
  lookup_putEntry name k value entries

theorem get?_cons (name k : String) (value : Value) (entries : List (String × Value)) :
    get? ((name, value) :: entries) k = if k = name then some value else get? entries k := by
  rw [get?, List.lookup_cons]
  by_cases hk : k = name
  · rw [if_pos hk, hk, beq_self_eq_true]
  · rw [if_neg hk, beq_false_of_ne hk, get?]

theorem overlay_table (lower upper : List (String × Value)) :
    overlay (table lower) (table upper) = table (overlayEntries lower upper) := by
  rw [overlay]

theorem overlayEntries_cons (lower rest : List (String × Value)) (name : String)
    (value : Value) :
    overlayEntries lower ((name, value) :: rest)
      = overlayEntries
          (putEntry name ((get? lower name).elim value (overlay · value)) lower) rest := by
  rw [overlayEntries]
  cases get? lower name <;> rfl

/-- Under each name stand the values of both tables, laid over each other. -/
theorem get?_overlayEntries (hnodup : (upper.map Prod.fst).Nodup)
    (lower : List (String × Value)) (k : String) :
    get? (overlayEntries lower upper) k
      = match get? upper k with
        | some value => some ((get? lower k).elim value (overlay · value))
        | none => get? lower k := by
  induction upper generalizing lower with
  | nil => rw [overlayEntries]; rfl
  | cons entry rest ih =>
      obtain ⟨name, value⟩ := entry
      obtain ⟨hnew, hrest⟩ := List.nodup_cons.mp hnodup
      rw [overlayEntries_cons, ih hrest, get?_putEntry, get?_cons]
      by_cases hk : k = name
      · subst hk
        have hnone : get? rest k = none := by
          rw [get?, List.lookup_eq_none_iff]
          intro entry hmem
          exact bne_iff_ne.mpr fun heq => hnew (List.mem_map.mpr ⟨entry, hmem, heq.symm⟩)
        simp only [hnone, if_true]
      · simp only [if_neg hk]

/-- A value, without what is inside if it is a table. -/
def top : Value → Value
  | .table _ => .table []
  | value => value

/-- Seen from the top, the upper value stands. -/
theorem top_overlay (below value : Value) : (overlay below value).top = value.top := by
  cases value with
  | table entries => cases below <;> rfl
  | _ => rfl

end Value

open Value

/-! ## Settings in sections -/

/-- Whether a value is a table. -/
def Value.IsTable (value : Value) : Prop := ∃ entries, value = .table entries

instance : DecidablePred Value.IsTable
  | .table entries => isTrue ⟨entries, rfl⟩
  | .text _ => isFalse fun h => nomatch h
  | .number _ => isFalse fun h => nomatch h
  | .flag _ => isFalse fun h => nomatch h
  | .list _ => isFalse fun h => nomatch h

/-- Whether what a table has under a name, if anything, is a table. -/
def GivesTable (root : List (String × Value)) (part : String) : Prop :=
  ∀ value ∈ get? root part, value.IsTable

instance (root : List (String × Value)) (part : String) : Decidable (GivesTable root part) :=
  inferInstanceAs (Decidable (∀ value ∈ get? root part, value.IsTable))

/-- What a table has for a setting of a section. -/
def setting (root : List (String × Value)) (part name : String) : Option Value :=
  match get? root part with
  | some (.table entries) => get? entries name
  | _ => none

theorem setting_of_table {root entries : List (String × Value)}
    (h : get? root part = some (.table entries)) : setting root part name = get? entries name := by
  rw [setting, h]

theorem setting_of_none {root : List (String × Value)} (h : get? root part = none) :
    setting root part name = none := by
  rw [setting, h]

theorem setting?_of_givesTable {root : List (String × Value)} (h : GivesTable root part) :
    setting? root part name = some (setting root part name) := by
  cases hget : get? root part with
  | none => rw [setting?, hget, setting_of_none hget]
  | some value =>
      obtain ⟨entries, rfl⟩ := h value hget
      rw [setting?, hget, setting_of_table hget]

/-- What stands in a section after laying one table over another one. -/
theorem givesTable_overlayEntries (hnodup : (upper.map Prod.fst).Nodup)
    (hlower : GivesTable lower part) (hupper : GivesTable upper part) :
    GivesTable (overlayEntries lower upper) part := by
  intro value hvalue
  rw [get?_overlayEntries hnodup] at hvalue
  cases habove : get? upper part with
  | none =>
      rw [habove] at hvalue
      exact hlower value hvalue
  | some above =>
      rw [habove] at hvalue
      obtain ⟨entries, rfl⟩ := hupper above habove
      cases hbelow : get? lower part with
      | none =>
          rw [hbelow] at hvalue
          cases hvalue
          exact ⟨entries, rfl⟩
      | some below =>
          rw [hbelow] at hvalue
          obtain ⟨entries', rfl⟩ := hlower below hbelow
          cases hvalue
          exact ⟨_, overlay_table entries' entries⟩

/-- A setting is the one of the upper table if it has it, and else the one of the
    lower table. -/
theorem setting_overlayEntries (honce : (table upper).NamesOnce 2)
    (hlower : GivesTable lower part) (hupper : GivesTable upper part) (name : String) :
    (setting (overlayEntries lower upper) part name).map top
      = ((setting upper part name).map top).or ((setting lower part name).map top) := by
  rw [← Option.map_or]
  have hget := get?_overlayEntries honce.1 lower part
  cases habove : get? upper part with
  | none =>
      rw [habove] at hget
      rw [setting, hget, setting_of_none habove, Option.none_or, setting]
  | some above =>
      obtain ⟨entries, rfl⟩ := hupper above habove
      have hentries : (entries.map Prod.fst).Nodup := (honce.of_get? habove).1
      rw [habove] at hget
      rw [setting_of_table habove]
      cases hbelow : get? lower part with
      | none =>
          rw [hbelow] at hget
          rw [setting_of_table hget, setting_of_none hbelow, Option.or_none]
      | some below =>
          obtain ⟨entries', rfl⟩ := hlower below hbelow
          rw [hbelow] at hget
          rw [setting_of_table (hget.trans (congrArg some (overlay_table ..))),
            setting_of_table hbelow, get?_overlayEntries hentries]
          cases habove : get? entries name with
          | none => rfl
          | some value =>
              rw [Option.some_or, Option.map_some, Option.map_some]
              cases get? entries' name with
              | none => rfl
              | some value' => exact congrArg some (top_overlay value' value)

/-! ## Reading settings -/

theorem text?_top (value : Value) : text? value.top = text? value := by
  cases value <;> rfl

theorem texts?_top (value : Value) : texts? value.top = texts? value := by
  cases value <;> rfl

end Stencil.Settings
