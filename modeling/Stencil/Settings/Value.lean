import Stencil.Ordered

/-! # Setting values

    What a configuration layer holds: texts, numbers, truth values, lists, and
    tables of named values.  Layers are laid over each other: tables are merged
    name by name, anything else in the upper layer replaces what is below. -/

namespace Stencil.Settings

/-- A value of a configuration layer. -/
inductive Value where
  | text (s : String)
  /-- A number, as it was written. -/
  | number (written : String)
  | flag (b : Bool)
  | list (items : List Value)
  | table (entries : List (String × Value))
deriving Repr

namespace Value

instance : Inhabited Value := ⟨.table []⟩

/-! ## Equality -/

mutual

/-- Whether two values are the same. -/
def same : Value → Value → Bool
  | .text s, .text s' => s = s'
  | .number written, .number written' => written = written'
  | .flag b, .flag b' => b = b'
  | .list items, .list items' => sameItems items items'
  | .table entries, .table entries' => sameEntries entries entries'
  | _, _ => false

/-- Whether two lists hold the same values. -/
def sameItems : List Value → List Value → Bool
  | [], [] => true
  | v :: items, v' :: items' => same v v' && sameItems items items'
  | _, _ => false

/-- Whether two tables have the same entries, in the same order. -/
def sameEntries : List (String × Value) → List (String × Value) → Bool
  | [], [] => true
  | (name, v) :: entries, (name', v') :: entries' =>
      name = name' && same v v' && sameEntries entries entries'
  | _, _ => false

end

mutual

/-- Values are the same if they are equal. -/
theorem same_iff (v v' : Value) : same v v' = true ↔ v = v' := by
  cases v <;> cases v' <;> simp [same, sameItems_iff, sameEntries_iff]

theorem sameItems_iff (items items' : List Value) :
    sameItems items items' = true ↔ items = items' := by
  cases items with
  | nil => cases items' <;> simp [sameItems]
  | cons v items =>
      cases items' with
      | nil => simp [sameItems]
      | cons v' items' => simp [sameItems, same_iff v v', sameItems_iff items items']

theorem sameEntries_iff (entries entries' : List (String × Value)) :
    sameEntries entries entries' = true ↔ entries = entries' := by
  cases entries with
  | nil => cases entries' <;> simp [sameEntries]
  | cons entry entries =>
      obtain ⟨name, v⟩ := entry
      cases entries' with
      | nil => simp [sameEntries]
      | cons entry' entries' =>
          obtain ⟨name', v'⟩ := entry'
          simp [sameEntries, same_iff v v', sameEntries_iff entries entries', and_assoc]

end

instance : DecidableEq Value := fun v v' => decidable_of_iff _ (same_iff v v')

/-! ## Tables -/

/-- The value of a name in a table. -/
def get? (entries : List (String × Value)) (name : String) : Option Value :=
  entries.lookup name

mutual

/-- Lays a value over another one. -/
def overlay (lower : Value) : Value → Value
  | .table upper =>
      match lower with
      | .table entries => .table (overlayEntries entries upper)
      | _ => .table upper
  | .text s => .text s
  | .number written => .number written
  | .flag b => .flag b
  | .list items => .list items

/-- Lays the entries of a table over those of another one, one after the other. -/
def overlayEntries (lower : List (String × Value)) :
    List (String × Value) → List (String × Value)
  | [] => lower
  | (name, value) :: rest =>
      let value' :=
        match get? lower name with
        | some below => overlay below value
        | none => value
      overlayEntries (putEntry name value' lower) rest

end

end Value

end Stencil.Settings
