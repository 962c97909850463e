import Stencil.Ordered

/-! # Laws of insertion-ordered maps

    Two maps with the same entries are the same.  What stands in a map was put
    there, and putting the entries of a map after those of another one is putting
    the pairs that it was made of (`putAll_toList_ofList`). -/

namespace Stencil

variable {α β : Type} [DecidableEq α]

/-! ## Entry lists -/

/-- What stands in an entry list after putting was put or stood there before. -/
theorem mem_putEntry {key : α} {value : β} {entries : List (α × β)} {entry : α × β}
    (h : entry ∈ putEntry key value entries) : entry = (key, value) ∨ entry ∈ entries := by
  induction entries with
  | nil => exact Or.inl (List.mem_singleton.mp h)
  | cons first rest ih =>
      obtain ⟨k, v⟩ := first
      rw [putEntry] at h
      by_cases hk : k = key
      · rw [if_pos hk] at h
        rcases List.mem_cons.mp h with heq | hmem
        · exact Or.inl heq
        · exact Or.inr (List.mem_cons_of_mem _ hmem)
      · rw [if_neg hk] at h
        rcases List.mem_cons.mp h with heq | hmem
        · exact Or.inr (heq ▸ List.mem_cons_self ..)
        · rcases ih hmem with heq | hrest
          · exact Or.inl heq
          · exact Or.inr (List.mem_cons_of_mem _ hrest)

/-- What is looked up in an entry list stands in it. -/
theorem mem_of_lookup {key : α} {value : β} {entries : List (α × β)}
    (h : entries.lookup key = some value) : (key, value) ∈ entries := by
  induction entries with
  | nil => cases h
  | cons entry rest ih =>
      obtain ⟨k, v⟩ := entry
      rw [List.lookup_cons] at h
      by_cases hk : key = k
      · subst hk
        rw [beq_self_eq_true] at h
        cases h
        exact List.mem_cons_self ..
      · rw [beq_false_of_ne hk] at h
        exact List.mem_cons_of_mem _ (ih h)

/-- The second value put for a key replaces the first one. -/
theorem putEntry_putEntry (key : α) (value value' : β) (entries : List (α × β)) :
    putEntry key value' (putEntry key value entries) = putEntry key value' entries := by
  induction entries with
  | nil => rw [putEntry, putEntry, putEntry, if_pos rfl]
  | cons first rest ih =>
      obtain ⟨k, v⟩ := first
      by_cases hk : k = key
      · rw [putEntry, if_pos hk, putEntry, if_pos rfl, putEntry, if_pos hk]
      · rw [putEntry, if_neg hk, putEntry, if_neg hk, putEntry, if_neg hk, ih]

/-- A key that is there already may change its value before or after another key
    is put. -/
theorem putEntry_comm {key key' : α} (hne : key ≠ key') (value value' : β)
    {entries : List (α × β)} (hmem : key ∈ entries.map Prod.fst) :
    putEntry key value (putEntry key' value' entries)
      = putEntry key' value' (putEntry key value entries) := by
  induction entries with
  | nil => cases hmem
  | cons first rest ih =>
      obtain ⟨k, v⟩ := first
      by_cases hk : k = key
      · subst hk
        rw [putEntry, if_neg hne, putEntry, if_pos rfl, putEntry, if_pos rfl, putEntry,
          if_neg hne]
      · by_cases hk' : k = key'
        · subst hk'
          rw [putEntry, if_pos rfl, putEntry, if_neg hk, putEntry, if_neg hk, putEntry,
            if_pos rfl]
        · have hrest : key ∈ rest.map Prod.fst := by
            rcases List.mem_cons.mp hmem with heq | hr
            · exact absurd heq.symm hk
            · exact hr
          rw [putEntry, if_neg hk', putEntry, if_neg hk, putEntry, if_neg hk, putEntry,
            if_neg hk', ih hrest]

theorem putEntry_of_not_mem {key : α} (value : β) {entries : List (α × β)}
    (h : key ∉ entries.map Prod.fst) : putEntry key value entries = entries ++ [(key, value)] := by
  induction entries with
  | nil => rfl
  | cons first rest ih =>
      obtain ⟨k, v⟩ := first
      rw [List.map_cons, List.mem_cons, not_or] at h
      rw [putEntry, if_neg (Ne.symm h.1), ih h.2, List.cons_append]

/-- What stands in an entry list without repeated keys is looked up. -/
theorem lookup_of_mem {key : α} {value : β} {entries : List (α × β)}
    (hnodup : (entries.map Prod.fst).Nodup) (h : (key, value) ∈ entries) :
    entries.lookup key = some value := by
  induction entries with
  | nil => cases h
  | cons entry rest ih =>
      obtain ⟨k, v⟩ := entry
      rw [List.map_cons, List.nodup_cons] at hnodup
      rw [List.lookup_cons]
      rcases List.mem_cons.mp h with heq | hmem
      · cases heq
        rw [beq_self_eq_true]
      · have hne : key ≠ k := by
          rintro rfl
          exact hnodup.1 (List.mem_map.mpr ⟨(key, value), hmem, rfl⟩)
        rw [beq_false_of_ne hne]
        exact ih hnodup.2 hmem

end Stencil

namespace Stencil.Ordered

variable {α β : Type}

/-! ## Maps as entry lists -/

theorem ext {m m' : Ordered α β} (h : m.toList = m'.toList) : m = m' := by
  obtain ⟨entries, nodup⟩ := m
  obtain ⟨entries', nodup'⟩ := m'
  cases (show entries = entries' from h)
  rfl

theorem mapValues_eq_self {f : β → β} {m : Ordered α β}
    (h : ∀ entry ∈ m.toList, f entry.2 = entry.2) : m.mapValues f = m := by
  refine ext ((List.map_congr_left ?_).trans (List.map_id m.toList))
  intro entry hmem
  rw [h entry hmem]
  rfl

variable [DecidableEq α]

/-- Putting a key that is there already commutes with putting another one. -/
theorem put_comm {key key' : α} (hne : key ≠ key') (value value' : β) {m : Ordered α β}
    (hmem : key ∈ m.keys) :
    (m.put key' value').put key value = (m.put key value).put key' value' :=
  ext (putEntry_comm hne value value' hmem)

theorem put_put (key : α) (value value' : β) (m : Ordered α β) :
    (m.put key value).put key value' = m.put key value' :=
  ext (putEntry_putEntry key value value' m.toList)

theorem mem_keys_put (key : α) (value : β) (m : Ordered α β) :
    key ∈ (m.put key value).keys := by
  rw [keys_put]
  by_cases h : key ∈ m.keys
  · rw [if_pos h]; exact h
  · rw [if_neg h]; exact List.mem_append_right _ (List.mem_singleton.mpr rfl)

theorem mem_keys_put_of_mem {key : α} (key' : α) (value : β) {m : Ordered α β}
    (h : key ∈ m.keys) : key ∈ (m.put key' value).keys := by
  rw [keys_put]
  by_cases h' : key' ∈ m.keys
  · rw [if_pos h']; exact h
  · rw [if_neg h']; exact List.mem_append_left _ h

/-! ## Putting many pairs -/

/-- Puts pairs one after the other. -/
def putAll (m : Ordered α β) (pairs : List (α × β)) : Ordered α β :=
  pairs.foldl (fun m pair => m.put pair.1 pair.2) m

theorem ofList_eq_putAll (pairs : List (α × β)) : ofList pairs = empty.putAll pairs := rfl

@[simp] theorem putAll_nil (m : Ordered α β) : m.putAll [] = m := rfl

@[simp] theorem putAll_cons (m : Ordered α β) (pair : α × β) (pairs : List (α × β)) :
    m.putAll (pair :: pairs) = (m.put pair.1 pair.2).putAll pairs := rfl

@[simp] theorem putAll_append (m : Ordered α β) (pairs pairs' : List (α × β)) :
    m.putAll (pairs ++ pairs') = (m.putAll pairs).putAll pairs' :=
  List.foldl_append

/-- What stands in a map after putting stood there before or was put. -/
theorem mem_putAll {m : Ordered α β} {pairs : List (α × β)} {entry : α × β}
    (h : entry ∈ (m.putAll pairs).toList) : entry ∈ m.toList ∨ entry ∈ pairs := by
  induction pairs generalizing m with
  | nil => exact Or.inl h
  | cons pair pairs ih =>
      rcases ih h with hput | hmem
      · rcases mem_putEntry hput with heq | hm
        · exact Or.inr (heq ▸ List.mem_cons_self ..)
        · exact Or.inl hm
      · exact Or.inr (List.mem_cons_of_mem _ hmem)

theorem mem_keys_putAll {key : α} {m : Ordered α β} {pairs : List (α × β)} :
    key ∈ (m.putAll pairs).keys ↔ key ∈ m.keys ∨ key ∈ pairs.map Prod.fst := by
  induction pairs generalizing m with
  | nil => rw [putAll_nil, List.map_nil, or_iff_left List.not_mem_nil]
  | cons pair pairs ih =>
      have hput : key ∈ (m.put pair.1 pair.2).keys ↔ key ∈ m.keys ∨ key = pair.1 := by
        rw [keys_put]
        by_cases h : pair.1 ∈ m.keys
        · rw [if_pos h]
          exact ⟨Or.inl, fun hkey => hkey.elim id fun heq => heq ▸ h⟩
        · rw [if_neg h, List.mem_append, List.mem_singleton]
      rw [putAll_cons, ih, hput, List.map_cons, List.mem_cons, or_assoc]

theorem mem_keys_ofList {key : α} {pairs : List (α × β)} :
    key ∈ (ofList pairs).keys ↔ key ∈ pairs.map Prod.fst := by
  rw [ofList_eq_putAll, mem_keys_putAll]
  exact or_iff_right List.not_mem_nil

theorem mem_of_get? {m : Ordered α β} {key : α} {value : β} (h : m.get? key = some value) :
    (key, value) ∈ m.toList :=
  mem_of_lookup h

/-- Changing the value of a key that is there already commutes with putting pairs
    of other keys. -/
theorem put_putAll {key : α} (value : β) {m : Ordered α β} {pairs : List (α × β)}
    (hmem : key ∈ m.keys) (hnot : key ∉ pairs.map Prod.fst) :
    (m.putAll pairs).put key value = (m.put key value).putAll pairs := by
  induction pairs generalizing m with
  | nil => rfl
  | cons pair pairs ih =>
      rw [List.map_cons, List.mem_cons, not_or] at hnot
      rw [putAll_cons, putAll_cons, ih (mem_keys_put_of_mem _ _ hmem) hnot.2,
        put_comm hnot.1 _ _ hmem]

/-- Putting an entry list that has been put into is putting once more. -/
theorem putAll_putEntry (m : Ordered α β) (key : α) (value : β) {entries : List (α × β)}
    (hnodup : (entries.map Prod.fst).Nodup) :
    m.putAll (putEntry key value entries) = (m.putAll entries).put key value := by
  induction entries generalizing m with
  | nil => rfl
  | cons entry rest ih =>
      obtain ⟨k, v⟩ := entry
      rw [List.map_cons, List.nodup_cons] at hnodup
      by_cases hk : k = key
      · subst hk
        rw [putEntry, if_pos rfl, putAll_cons, putAll_cons,
          put_putAll value (mem_keys_put _ _ _) hnodup.1, put_put]
      · rw [putEntry, if_neg hk, putAll_cons, putAll_cons, ih _ hnodup.2]

/-- Putting the entries of a map is putting the pairs it was made of. -/
theorem putAll_toList_ofList (m : Ordered α β) (pairs : List (α × β)) :
    m.putAll (ofList pairs).toList = m.putAll pairs := by
  have hgen : ∀ m' : Ordered α β,
      m.putAll (m'.putAll pairs).toList = (m.putAll m'.toList).putAll pairs := by
    induction pairs with
    | nil => intro m'; rfl
    | cons pair pairs ih =>
        intro m'
        rw [putAll_cons, ih, putAll_cons]
        exact congrArg (·.putAll pairs)
          (putAll_putEntry m pair.1 pair.2 m'.nodup_keys)
  exact hgen empty

/-! ## Looking up what was put -/

theorem get?_of_mem {m : Ordered α β} {key : α} {value : β} (h : (key, value) ∈ m.toList) :
    m.get? key = some value :=
  lookup_of_mem m.nodup_keys h

theorem mem_keys_iff {m : Ordered α β} {key : α} :
    key ∈ m.keys ↔ ∃ value : β, m.get? key = some value := by
  constructor
  · intro hmem
    obtain ⟨⟨k, value⟩, hentry, rfl⟩ := List.mem_map.mp hmem
    exact ⟨value, get?_of_mem hentry⟩
  · rintro ⟨value, hget⟩
    exact List.mem_map.mpr ⟨(key, value), mem_of_get? hget, rfl⟩

/-- What is looked up after putting is the last value put for the key, or else what was
    there. -/
theorem get?_putAll_eq_some_iff {key : α} {value : β} {m : Ordered α β} {pairs : List (α × β)} :
    (m.putAll pairs).get? key = some value
      ↔ (∃ earlier later, pairs = earlier ++ (key, value) :: later ∧ key ∉ later.map Prod.fst)
        ∨ key ∉ pairs.map Prod.fst ∧ m.get? key = some value := by
  induction pairs generalizing m with
  | nil => simp
  | cons pair pairs ih =>
      obtain ⟨k, v⟩ := pair
      rw [putAll_cons, ih, get?_put]
      constructor
      · rintro (⟨earlier, later, rfl, hlast⟩ | ⟨hnot, hput⟩)
        · exact Or.inl ⟨(k, v) :: earlier, later, rfl, hlast⟩
        · by_cases hk : key = k
          · rw [if_pos hk] at hput
            cases hput
            exact Or.inl ⟨[], pairs, by rw [hk]; rfl, hnot⟩
          · rw [if_neg hk] at hput
            exact Or.inr ⟨List.not_mem_cons_of_ne_of_not_mem hk hnot, hput⟩
      · rintro (⟨earlier, later, hsplit, hlast⟩ | ⟨hnot, hput⟩)
        · cases earlier with
          | nil =>
              cases hsplit
              exact Or.inr ⟨hlast, if_pos rfl⟩
          | cons first earlier =>
              cases hsplit
              exact Or.inl ⟨earlier, later, rfl, hlast⟩
        · rw [List.map_cons, List.mem_cons, not_or] at hnot
          exact Or.inr ⟨hnot.2, (if_neg hnot.1).trans hput⟩

theorem get?_ofList_eq_some_iff {key : α} {value : β} {pairs : List (α × β)} :
    (ofList pairs).get? key = some value
      ↔ ∃ earlier later, pairs = earlier ++ (key, value) :: later
        ∧ key ∉ later.map Prod.fst := by
  rw [ofList_eq_putAll, get?_putAll_eq_some_iff]
  exact or_iff_left fun h => nomatch h.2

theorem get?_ofList_append {key : α} (value : β) (earlier : List (α × β))
    {later : List (α × β)} (h : key ∉ later.map Prod.fst) :
    (ofList (earlier ++ (key, value) :: later)).get? key = some value :=
  get?_ofList_eq_some_iff.mpr ⟨earlier, later, rfl, h⟩

theorem eraseDups_of_nodup {keys : List α} (h : keys.Nodup) : keys.eraseDups = keys := by
  induction keys with
  | nil => rfl
  | cons key keys ih =>
      obtain ⟨hnot, hrest⟩ := List.nodup_cons.mp h
      have hkept : keys.filter (fun k => !k == key) = keys := by
        refine List.filter_eq_self.mpr fun k hk => ?_
        rw [beq_false_of_ne (fun heq : k = key => hnot (heq ▸ hk))]
        rfl
      rw [List.eraseDups_cons, hkept, ih hrest]

/-- The keys stand in the order in which they were first put. -/
theorem keys_putAll (m : Ordered α β) (pairs : List (α × β)) :
    (m.putAll pairs).keys = (m.keys ++ pairs.map Prod.fst).eraseDups := by
  induction pairs generalizing m with
  | nil =>
      rw [putAll_nil, List.map_nil, List.append_nil, eraseDups_of_nodup]
      exact m.nodup_keys
  | cons pair pairs ih =>
      rw [putAll_cons, ih, keys_put, List.map_cons]
      by_cases h : pair.1 ∈ m.keys
      · rw [if_pos h, List.eraseDups_append, List.eraseDups_append, List.cons_removeAll,
          if_neg (by rw [List.contains_iff_mem.mpr h]; exact Bool.false_ne_true.symm)]
      · rw [if_neg h, List.append_assoc, List.singleton_append]

theorem keys_ofList (pairs : List (α × β)) :
    (ofList pairs).keys = (pairs.map Prod.fst).eraseDups :=
  keys_putAll empty pairs

/-- Putting pairs of new keys appends them. -/
theorem toList_putAll {m : Ordered α β} {pairs : List (α × β)}
    (h : (m.keys ++ pairs.map Prod.fst).Nodup) : (m.putAll pairs).toList = m.toList ++ pairs := by
  induction pairs generalizing m with
  | nil => exact (List.append_nil _).symm
  | cons pair pairs ih =>
      obtain ⟨key, value⟩ := pair
      have hnew : key ∉ m.toList.map Prod.fst := by
        intro hmem
        exact (List.nodup_append.mp h).2.2 key hmem key (List.mem_cons_self ..) rfl
      have hput : (m.put key value).toList = m.toList ++ [(key, value)] :=
        putEntry_of_not_mem value hnew
      have hkeys : (m.put key value).keys = m.keys ++ [key] := by
        rw [keys, hput, List.map_append]
        rfl
      rw [putAll_cons, ih, hput, List.append_assoc]
      · rfl
      · rw [hkeys, List.append_assoc]
        exact h

theorem toList_ofList {pairs : List (α × β)} (h : (pairs.map Prod.fst).Nodup) :
    (ofList pairs).toList = pairs := by
  have hempty : ((empty : Ordered α β).keys ++ pairs.map Prod.fst).Nodup := h
  rw [ofList_eq_putAll, toList_putAll hempty]
  rfl

/-- Putting the entries of a map gives the map again. -/
theorem ofList_toList (m : Ordered α β) : ofList m.toList = m :=
  ext (toList_ofList m.nodup_keys)

end Stencil.Ordered
