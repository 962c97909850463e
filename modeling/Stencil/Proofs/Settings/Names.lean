import Stencil.Proofs.Ordered
import Stencil.Settings.Toml.Document

/-! # Names that occur once

    Laying a table over another one goes through the upper one entry by entry, so
    each of its entries counts only if none is named again further on.  No table
    that is read from a file names anything twice (`Toml.namesOnce_of_read`), for
    whatever a line of it adds is put under its key; and laying one value over
    another keeps it so (`Value.namesOnce_overlay`).

    The depth says how many levels of tables are looked into.  What stands in a
    list is never merged with anything, so it may name what it likes. -/

namespace Stencil.Settings

namespace Value

variable {depth : Nat} {lower upper value : Value} {entries : List (String × Value)}
  {name : String}

/-- Whether a value and the tables in it name nothing twice, down to a depth. -/
def NamesOnce : Nat → Value → Prop
  | depth + 1, .table entries =>
      (entries.map Prod.fst).Nodup ∧ ∀ entry ∈ entries, entry.2.NamesOnce depth
  | _, _ => True

/-! ## Tables -/

theorem namesOnce_zero (value : Value) : value.NamesOnce 0 := by
  cases value <;> trivial

theorem namesOnce_nil (depth : Nat) : (table []).NamesOnce depth := by
  cases depth with
  | zero => trivial
  | succ depth => exact ⟨List.nodup_nil, fun _ hmem => nomatch hmem⟩

/-- What is no table names nothing. -/
theorem namesOnce_of_ne_table (h : ∀ entries, value ≠ table entries) (depth : Nat) :
    value.NamesOnce depth := by
  cases value with
  | table entries => exact absurd rfl (h entries)
  | _ => cases depth <;> trivial

theorem NamesOnce.of_get? (h : (table entries).NamesOnce (depth + 1))
    (hget : get? entries name = some value) : value.NamesOnce depth :=
  h.2 _ (mem_of_lookup hget)

theorem NamesOnce.put (h : (table entries).NamesOnce (depth + 1))
    (hvalue : value.NamesOnce depth) (name : String) :
    (table (putEntry name value entries)).NamesOnce (depth + 1) := by
  refine ⟨nodup_keys_putEntry name value h.1, fun entry hmem => ?_⟩
  rcases mem_putEntry hmem with heq | hthere
  · rw [heq]
    exact hvalue
  · exact h.2 entry hthere

/-! ## Layers -/

/-- If laying values over each other keeps the names apart one level down, laying
    the entries of a table over those of another one does. -/
theorem namesOnce_overlayEntries
    (hoverlay : ∀ {below above : Value}, below.NamesOnce depth → above.NamesOnce depth →
      (overlay below above).NamesOnce depth)
    {entries upper : List (String × Value)} (hlower : (table entries).NamesOnce (depth + 1))
    (hupper : ∀ entry ∈ upper, entry.2.NamesOnce depth) :
    (table (overlayEntries entries upper)).NamesOnce (depth + 1) := by
  induction upper generalizing entries with
  | nil => exact hlower
  | cons entry rest ih =>
      obtain ⟨name, value⟩ := entry
      have hvalue : value.NamesOnce depth := hupper _ (List.mem_cons_self ..)
      have hrest := fun entry hmem => hupper entry (List.mem_cons_of_mem _ hmem)
      rw [overlayEntries]
      cases hbelow : get? entries name with
      | none => exact ih (hlower.put hvalue name) hrest
      | some below =>
          exact ih (hlower.put (hoverlay (hlower.of_get? hbelow) hvalue) name) hrest

/-- Laying a value over another one keeps the names apart. -/
theorem namesOnce_overlay (hlower : lower.NamesOnce depth) (hupper : upper.NamesOnce depth) :
    (overlay lower upper).NamesOnce depth := by
  induction depth generalizing lower upper with
  | zero => exact namesOnce_zero _
  | succ depth ih =>
      cases upper with
      | table entries =>
          cases lower with
          | table below =>
              rw [overlay]
              exact namesOnce_overlayEntries ih hlower hupper.2
          | _ => exact hupper
      | _ => exact hupper

end Value

namespace Toml

/-! ## Trees of TOML -/

namespace Entries

variable {depth : Nat} {entries entries' : Entries} {key : String} {node : Node}

/-- Whether the values of the entries name nothing twice, down to a depth. -/
def NamesOnce (depth : Nat) (entries : Entries) : Prop :=
  (Value.table (entryValues entries)).NamesOnce depth

theorem entryValues_set (entries : Entries) (key : String) (node : Node) :
    entryValues (set entries key node) = putEntry key (nodeValue node) (entryValues entries) := by
  unfold set
  induction entries with
  | nil => rfl
  | cons entry rest ih =>
      obtain ⟨k, old⟩ := entry
      rw [putEntry, entryValues, putEntry]
      by_cases hk : k = key
      · rw [if_pos hk, if_pos hk, entryValues]
      · rw [if_neg hk, if_neg hk, entryValues, ih]

theorem lookup_entryValues (entries : Entries) (key : String) :
    (entryValues entries).lookup key = (get? entries key).map nodeValue := by
  unfold get?
  induction entries with
  | nil => rfl
  | cons entry rest ih =>
      obtain ⟨k, node⟩ := entry
      rw [entryValues, List.lookup_cons, List.lookup_cons]
      by_cases hk : key = k
      · subst hk
        simp only [beq_self_eq_true, Option.map_some]
      · rw [beq_false_of_ne hk]
        exact ih

theorem NamesOnce.of_get? (h : entries.NamesOnce (depth + 1))
    (hget : get? entries key = some node) : (nodeValue node).NamesOnce depth := by
  have hvalue : Value.get? (entryValues entries) key = some (nodeValue node) := by
    rw [Value.get?, lookup_entryValues, hget, Option.map_some]
  exact Value.NamesOnce.of_get? h hvalue

/-- Giving a key a node keeps the names apart if the node is as good as what
    stands around it. -/
theorem NamesOnce.set (h : entries.NamesOnce depth) (key : String)
    (hnode : ∀ {below : Nat}, entries.NamesOnce (below + 1) →
      (nodeValue node).NamesOnce below) :
    (set entries key node).NamesOnce depth := by
  cases depth with
  | zero => exact Value.namesOnce_zero _
  | succ below =>
      rw [NamesOnce, entryValues_set]
      exact Value.NamesOnce.put h (hnode h) key

/-- A table is as good as its entries. -/
theorem NamesOnce.table (h : entries.NamesOnce depth) (origin : Origin) :
    (nodeValue (.table origin entries)).NamesOnce depth := h

theorem namesOnce_nil (depth : Nat) : NamesOnce depth [] := Value.namesOnce_nil depth

theorem namesOnce_tables (complete : List Value) (last : List (String × Node)) (depth : Nat) :
    (nodeValue (.tables complete last)).NamesOnce depth :=
  Value.namesOnce_of_ne_table (by nofun) depth

/-- Whether a change keeps the names apart, to whatever depth they are. -/
def KeepsNames (change : Entries → Option Entries) : Prop :=
  ∀ {depth : Nat} {entries entries' : Entries}, entries.NamesOnce depth →
    change entries = some entries' → entries'.NamesOnce depth

theorem keepsNames_place {value : Value} (hvalue : ∀ depth, value.NamesOnce depth)
    (path : List String) : KeepsNames (place value path) := by
  intro depth entries entries' h hplace
  induction path generalizing depth entries entries' with
  | nil => cases hplace
  | cons key keys ih =>
      cases keys with
      | nil =>
          rw [place] at hplace
          cases hget : get? entries key with
          | none =>
              rw [hget] at hplace
              cases hplace
              exact h.set key fun _ => hvalue _
          | some node =>
              rw [hget] at hplace
              cases hplace
      | cons next keys =>
          rw [place] at hplace
          cases hget : get? entries key with
          | none =>
              rw [hget] at hplace
              obtain ⟨inner, hinner, hset⟩ := Option.bind_eq_some_iff.mp hplace
              cases hset
              exact h.set key fun _ => (ih (namesOnce_nil _) hinner).table .dotted
          | some node =>
              rw [hget] at hplace
              cases node with
              | value v => cases hplace
              | table origin below =>
                  obtain ⟨-, hplace⟩ := Option.ite_none_left_eq_some.mp hplace
                  obtain ⟨inner, hinner, hset⟩ := Option.bind_eq_some_iff.mp hplace
                  cases hset
                  exact h.set key fun h => (ih (h.of_get? hget) hinner).table origin
              | tables complete last =>
                  obtain ⟨-, hplace⟩ := Option.ite_none_left_eq_some.mp hplace
                  obtain ⟨inner, -, hset⟩ := Option.bind_eq_some_iff.mp hplace
                  cases hset
                  exact h.set key fun _ => namesOnce_tables ..

theorem keepsNames_within {change : Entries → Option Entries} (hchange : KeepsNames change)
    (path : List String) : KeepsNames (within change path) := by
  intro depth entries entries' h hwithin
  induction path generalizing depth entries entries' with
  | nil => exact hchange h hwithin
  | cons key keys ih =>
      rw [within] at hwithin
      cases hget : get? entries key with
      | none =>
          rw [hget] at hwithin
          obtain ⟨inner, hinner, hset⟩ := Option.bind_eq_some_iff.mp hwithin
          cases hset
          exact h.set key fun _ => (ih (namesOnce_nil _) hinner).table .implied
      | some node =>
          rw [hget] at hwithin
          cases node with
          | value v => cases hwithin
          | table origin below =>
              obtain ⟨inner, hinner, hset⟩ := Option.bind_eq_some_iff.mp hwithin
              cases hset
              exact h.set key fun h => (ih (h.of_get? hget) hinner).table origin
          | tables complete last =>
              obtain ⟨inner, -, hset⟩ := Option.bind_eq_some_iff.mp hwithin
              cases hset
              exact h.set key fun _ => namesOnce_tables ..

theorem keepsNames_openTable (key : String) : KeepsNames (openTable key) := by
  intro depth entries entries' h hopen
  rw [openTable] at hopen
  cases hget : get? entries key with
  | none =>
      rw [hget] at hopen
      cases hopen
      exact h.set key fun _ => (namesOnce_nil _).table .header
  | some node =>
      rw [hget] at hopen
      cases node with
      | table origin inner =>
          cases origin with
          | implied =>
              cases hopen
              exact h.set key fun h => NamesOnce.table (h.of_get? hget) .header
          | _ => cases hopen
      | _ => cases hopen

theorem keepsNames_openArrayTable (key : String) : KeepsNames (openArrayTable key) := by
  intro depth entries entries' h hopen
  rw [openArrayTable] at hopen
  cases hget : get? entries key with
  | none =>
      rw [hget] at hopen
      cases hopen
      exact h.set key fun _ => namesOnce_tables ..
  | some node =>
      rw [hget] at hopen
      cases node with
      | tables complete last =>
          cases hopen
          exact h.set key fun _ => namesOnce_tables ..
      | _ => cases hopen

end Entries

/-! ## Values in a document -/

theorem item_of_keyValue {item : Reader Value} {cs rest : List Char} {parts : List String}
    {v : Value} (h : keyValue item cs = some ((parts, v), rest)) :
    ∃ start : List Char, item start = some (v, rest) := by
  obtain ⟨⟨parts', after⟩, -, h⟩ := Option.bind_eq_some_iff.mp h
  cases after with
  | nil => cases h
  | cons c after =>
      by_cases hc : c = '='
      · subst hc
        obtain ⟨⟨v', rest'⟩, hitem, h⟩ := Option.bind_eq_some_iff.mp h
        cases h
        exact ⟨_, hitem⟩
      · simp [hc] at h

/-- Whether the values that a reader gives name nothing twice. -/
def GivesNamesOnce (item : Reader Value) : Prop :=
  ∀ {cs rest : List Char} {v : Value}, item cs = some (v, rest) → ∀ depth, v.NamesOnce depth

theorem namesOnce_inlineRest {item : Reader Value} (hitem : GivesNamesOnce item)
    {entries entries' : Entries} {cs rest : List Char}
    (hentries : ∀ depth, entries.NamesOnce depth)
    (h : inlineRest item entries cs = some (entries', rest)) (depth : Nat) :
    entries'.NamesOnce depth := by
  have hplace : ∀ {entries entries' : Entries} {cs rest : List Char} {parts : List String}
      {v : Value}, (∀ depth, entries.NamesOnce depth) →
      keyValue item cs = some ((parts, v), rest) → entries.place v parts = some entries' →
      ∀ depth, entries'.NamesOnce depth := by
    intro entries entries' cs rest parts v hentries hkey hplace depth
    obtain ⟨start, hstart⟩ := item_of_keyValue hkey
    exact Entries.keepsNames_place (hitem hstart) parts (hentries depth) hplace
  fun_induction inlineRest item entries cs with
  | case1 => cases h
  | case2 => cases h
  | case3 entries cs parts v after hkey placed hplaced =>
      cases h
      exact hplace hentries hkey hplaced depth
  | case4 entries cs parts v after hkey placed hplaced next hnext hshort ih =>
      exact ih (hplace hentries hkey hplaced) h
  | case5 => cases h
  | case6 => cases h

theorem namesOnce_scalar : GivesNamesOnce scalar := by
  intro cs rest v h depth
  revert h
  fun_cases scalar cs with
  | case3 =>
      rintro ⟨⟩
      exact Value.namesOnce_nil depth
  | case5 => rintro ⟨⟩
  | _ =>
      rintro ⟨⟩
      exact Value.namesOnce_of_ne_table (by nofun) depth

/-- No table in a value of a document names anything twice. -/
theorem namesOnce_value (nesting : Nat) : GivesNamesOnce (value nesting) := by
  induction nesting using Nat.strongRecOn with
  | ind nesting ih =>
      intro cs rest v h depth
      unfold value at h
      split at h
      · obtain ⟨⟨s, after⟩, -, heq⟩ := Option.map_eq_some_iff.mp h
        cases heq
        exact Value.namesOnce_of_ne_table (by nofun) depth
      · obtain ⟨⟨s, after⟩, -, heq⟩ := Option.map_eq_some_iff.mp h
        cases heq
        exact Value.namesOnce_of_ne_table (by nofun) depth
      · obtain ⟨⟨items, after⟩, -, heq⟩ := Option.map_eq_some_iff.mp h
        cases heq
        exact Value.namesOnce_of_ne_table (by nofun) depth
      · split at h
        · cases h
          exact Value.namesOnce_nil depth
        · obtain ⟨⟨entries, after⟩, hinline, heq⟩ := Option.map_eq_some_iff.mp h
          cases heq
          exact namesOnce_inlineRest (ih _ (Nat.lt_succ_self _)) Entries.namesOnce_nil
            hinline depth
      · exact namesOnce_scalar h depth

/-! ## Documents -/

namespace Reading

theorem namesOnce_openAt {reading opened : Reading}
    {openLast : String → Entries → Option Entries} {path : List String}
    (hlast : ∀ key, Entries.KeepsNames (openLast key))
    (hreading : ∀ depth, reading.root.NamesOnce depth)
    (h : reading.openAt openLast path = some opened) (depth : Nat) :
    opened.root.NamesOnce depth := by
  obtain ⟨last, -, h⟩ := Option.bind_eq_some_iff.mp h
  obtain ⟨root, hwithin, heq⟩ := Option.bind_eq_some_iff.mp h
  cases heq
  exact Entries.keepsNames_within (hlast last) _ (hreading depth) hwithin

theorem namesOnce_line {reading read : Reading} {cs rest : List Char}
    (hreading : ∀ depth, reading.root.NamesOnce depth)
    (h : reading.line cs = some (read, rest)) (depth : Nat) : read.root.NamesOnce depth := by
  unfold line at h
  split at h
  · obtain ⟨⟨path, after⟩, -, h⟩ := Option.bind_eq_some_iff.mp h
    dsimp only at h
    split at h
    · obtain ⟨opened, hopen, heq⟩ := Option.bind_eq_some_iff.mp h
      cases heq
      exact namesOnce_openAt Entries.keepsNames_openArrayTable hreading hopen depth
    · cases h
  · obtain ⟨⟨path, after⟩, -, h⟩ := Option.bind_eq_some_iff.mp h
    dsimp only at h
    split at h
    · obtain ⟨opened, hopen, heq⟩ := Option.bind_eq_some_iff.mp h
      cases heq
      exact namesOnce_openAt Entries.keepsNames_openTable hreading hopen depth
    · cases h
  · obtain ⟨⟨⟨parts, v⟩, after⟩, hkey, h⟩ := Option.bind_eq_some_iff.mp h
    obtain ⟨start, hvalue⟩ := item_of_keyValue hkey
    obtain ⟨root, hwithin, heq⟩ := Option.bind_eq_some_iff.mp h
    cases heq
    exact Entries.keepsNames_within (Entries.keepsNames_place (namesOnce_value 79 hvalue) parts)
      _ (hreading depth) hwithin

theorem namesOnce_lines {reading read : Reading} {cs : List Char}
    (hreading : ∀ depth, reading.root.NamesOnce depth)
    (h : reading.lines cs = some read) (depth : Nat) : read.root.NamesOnce depth := by
  fun_induction lines reading cs with
  | case1 => cases h; exact hreading depth
  | case2 reading cs c rest hgap hempty next hend hshort ih => exact ih hreading h
  | case6 reading cs c rest hgap hfull after left hline next hend hshort ih =>
      exact ih (namesOnce_line hreading hline) h
  | _ => cases h

end Reading

/-- No table in a file names anything twice. -/
theorem namesOnce_of_read {text : String} {entries : List (String × Value)}
    (h : read text = some entries) (depth : Nat) : (Value.table entries).NamesOnce depth := by
  obtain ⟨reading, hlines, rfl⟩ := Option.map_eq_some_iff.mp h
  exact Reading.namesOnce_lines Entries.namesOnce_nil hlines depth

end Toml

end Stencil.Settings
