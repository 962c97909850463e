/-! # Insertion-ordered maps

    A finite map that remembers the order in which its keys first came in.
    Putting a key again changes its value and keeps its place, so the last value
    wins and the first position stays.  That no key occurs twice is part of the
    type. -/

namespace Stencil

variable {α β γ : Type}

/-! ## Entry lists -/

/-- Replaces the value of a key in place, or appends the pair. -/
def putEntry [DecidableEq α] (key : α) (value : β) : List (α × β) → List (α × β)
  | [] => [(key, value)]
  | (k, v) :: rest =>
      if k = key then (key, value) :: rest else (k, v) :: putEntry key value rest

/-- Putting keeps the keys and their order, a new key coming last. -/
theorem keys_putEntry [DecidableEq α] (key : α) (value : β) (entries : List (α × β)) :
    (putEntry key value entries).map Prod.fst
      = if key ∈ entries.map Prod.fst then entries.map Prod.fst
        else entries.map Prod.fst ++ [key] := by
  induction entries with
  | nil => simp [putEntry]
  | cons entry rest ih =>
      obtain ⟨k, v⟩ := entry
      by_cases hk : k = key
      · simp [putEntry, hk]
      · have hk' : ¬ key = k := fun h => hk h.symm
        by_cases hm : key ∈ rest.map Prod.fst
        · simp only [putEntry, if_neg hk, List.map_cons, ih, List.mem_cons,
            hm, or_true, if_true]
        · simp only [putEntry, if_neg hk, List.map_cons, ih, List.mem_cons,
            hm, hk', or_self, if_false, List.cons_append]

/-- Putting never makes a key occur twice. -/
theorem nodup_keys_putEntry [DecidableEq α] (key : α) (value : β)
    {entries : List (α × β)}
    (h : (entries.map Prod.fst).Nodup) :
    ((putEntry key value entries).map Prod.fst).Nodup := by
  rw [keys_putEntry]
  by_cases hm : key ∈ entries.map Prod.fst
  · rwa [if_pos hm]
  · rw [if_neg hm, List.nodup_append]
    refine ⟨h, by simp, ?_⟩
    intro a ha b hb
    rw [List.mem_singleton.mp hb]
    exact fun hab => hm (hab ▸ ha)

/-- Looking a key up finds what was put there last. -/
theorem lookup_putEntry [DecidableEq α] (key k : α) (value : β) (entries : List (α × β)) :
    (putEntry key value entries).lookup k
      = if k = key then some value else entries.lookup k := by
  induction entries with
  | nil =>
      by_cases hk : k = key
      · simp [putEntry, hk]
      · simp [putEntry, List.lookup_cons, hk, beq_false_of_ne hk]
  | cons entry rest ih =>
      obtain ⟨a, v⟩ := entry
      by_cases ha : a = key
      · subst ha
        by_cases hk : k = a
        · simp [putEntry, hk]
        · simp [putEntry, List.lookup_cons, hk, beq_false_of_ne hk]
      · by_cases hk : k = a
        · subst hk
          simp [putEntry, ha]
        · simp [putEntry, ha, List.lookup_cons, beq_false_of_ne hk, ih]

/-! ## The map -/

/-- Key–value pairs in order of first insertion, one per key. -/
structure Ordered (α β : Type) where
  toList : List (α × β)
  nodup_keys : (toList.map Prod.fst).Nodup
deriving DecidableEq, Repr

namespace Ordered

/-- The map without entries. -/
def empty : Ordered α β := ⟨[], List.nodup_nil⟩

instance : Inhabited (Ordered α β) := ⟨empty⟩

/-- The keys, in order of first insertion. -/
def keys (m : Ordered α β) : List α := m.toList.map Prod.fst

/-- The values, in the order of their keys. -/
def values (m : Ordered α β) : List β := m.toList.map Prod.snd

/-- The number of keys. -/
def size (m : Ordered α β) : Nat := m.toList.length

/-- Whether there are no entries. -/
def isEmpty (m : Ordered α β) : Bool := m.toList.isEmpty

/-- The value of a key. -/
def get? [DecidableEq α] (m : Ordered α β) (key : α) : Option β := m.toList.lookup key

/-- Whether the key has a value. -/
def contains [DecidableEq α] (m : Ordered α β) (key : α) : Bool := (m.get? key).isSome

/-- Gives a key a value: in place if it has one already, last otherwise. -/
def put [DecidableEq α] (m : Ordered α β) (key : α) (value : β) : Ordered α β :=
  ⟨putEntry key value m.toList, nodup_keys_putEntry key value m.nodup_keys⟩

/-- Putting gives its key the value and leaves all other keys alone. -/
theorem get?_put [DecidableEq α] (m : Ordered α β) (key k : α) (value : β) :
    (m.put key value).get? k = if k = key then some value else m.get? k :=
  lookup_putEntry key k value m.toList

/-- A new key comes last, an old one keeps its place. -/
theorem keys_put [DecidableEq α] (m : Ordered α β) (key : α) (value : β) :
    (m.put key value).keys = if key ∈ m.keys then m.keys else m.keys ++ [key] :=
  keys_putEntry key value m.toList

/-- The map that results from putting the pairs one after the other. -/
def ofList [DecidableEq α] (pairs : List (α × β)) : Ordered α β :=
  pairs.foldl (fun m pair => m.put pair.1 pair.2) empty

/-- Changes every value, keeping keys and order. -/
def mapValues (f : β → γ) (m : Ordered α β) : Ordered α γ :=
  ⟨m.toList.map fun pair => (pair.1, f pair.2), by
    have h : (m.toList.map fun pair => (pair.1, f pair.2)).map Prod.fst
        = m.toList.map Prod.fst := by
      rw [List.map_map]; rfl
    rw [h]; exact m.nodup_keys⟩

end Ordered

end Stencil
