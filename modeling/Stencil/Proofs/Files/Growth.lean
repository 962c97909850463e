import Stencil.Files.Disk

/-! # Growing disks

    No request takes anything away: a disk grows if every entry stays what it is
    (`Disk.Grows`).  Making a directory or a file adds one entry where there was
    none, at the location that its path leads to.

    Entering a directory looks at one entry only (`enter_eq_ok_iff`), so on a grown
    disk every path that led somewhere still leads there. -/

namespace Stencil.Files

/-- Where a name leads from a place. -/
def walk (place : Location) (name : String) : Location :=
  if name = "." then place
  else if name = ".." then place.dropLast
  else place ++ [name]

namespace Disk

theorem eq_ok_of_bind {ε α β : Type} {x : Except ε α} {f : α → Except ε β} {result : β}
    (h : x >>= f = .ok result) : ∃ a : α, x = .ok a ∧ f a = .ok result := by
  cases x with
  | error reason => cases h
  | ok a => exact ⟨a, rfl, h⟩

theorem ok_bind {ε α β : Type} (a : α) (f : α → Except ε β) : (.ok a >>= f) = f a := rfl

/-! ## Entries -/

/-- Putting an entry changes one location; the root stays a directory. -/
theorem entry?_put (disk : Disk) (place place' : Location) (entry : Entry) :
    Disk.entry? (disk.put place entry) place'
      = if place' = [] then some .directory
        else if place' = place then some entry else disk.entry? place' := by
  rw [Disk.entry?]
  by_cases hroot : place' = []
  · rw [if_pos hroot, if_pos hroot]
  · rw [if_neg hroot, if_neg hroot, put, Ordered.get?_put, Disk.entry?, if_neg hroot]

theorem entry?_put_self {place : Location} (hne : place ≠ []) (disk : Disk) (entry : Entry) :
    Disk.entry? (disk.put place entry) place = some entry := by
  rw [entry?_put, if_neg hne, if_pos rfl]

/-- What stands anywhere after an entry is put was there, or is that entry. -/
theorem eq_of_entry?_put {disk : Disk} {place made : Location} {entry new : Entry}
    (h : Disk.entry? (disk.put made new) place = some entry) :
    disk.entry? place = some entry ∨ place = made ∧ entry = new := by
  rw [entry?_put] at h
  by_cases hroot : place = []
  · subst hroot
    exact Or.inl h
  rw [if_neg hroot] at h
  by_cases hmade : place = made
  · rw [if_pos hmade] at h
    exact Or.inr ⟨hmade, (Option.some.inj h).symm⟩
  · rw [if_neg hmade] at h
    exact Or.inl h

theorem ne_root_of_free {disk : Disk} {place : Location} (hfree : disk.entry? place = none) :
    place ≠ [] := by
  rintro rfl
  cases hfree

/-! ## Growth -/

/-- Whether a later disk has all that a disk has. -/
structure Grows (disk later : Disk) : Prop where
  here : later.here = disk.here
  entries : ∀ (place : Location) (entry : Entry),
    disk.entry? place = some entry → later.entry? place = some entry

theorem Grows.refl (disk : Disk) : Grows disk disk :=
  ⟨rfl, fun _ _ h => h⟩

theorem Grows.trans {disk later last : Disk} (h : Grows disk later) (h' : Grows later last) :
    Grows disk last where
  here := h'.here.trans h.here
  entries := by
    intro place entry hentry
    exact h'.entries place entry (h.entries place entry hentry)

/-- Whether a later disk has all directories of a disk. -/
structure KeepsDirectories (disk later : Disk) : Prop where
  here : later.here = disk.here
  directories : ∀ place : Location,
    disk.entry? place = some .directory → later.entry? place = some .directory

theorem Grows.keepsDirectories {disk later : Disk} (h : Grows disk later) :
    KeepsDirectories disk later :=
  ⟨h.here, fun place => h.entries place .directory⟩

/-- Where a grown disk has nothing, there was nothing. -/
theorem Grows.free {disk later : Disk} (h : Grows disk later) {place : Location}
    (hfree : later.entry? place = none) : disk.entry? place = none := by
  cases hentry : disk.entry? place with
  | none => rfl
  | some entry =>
      rw [h.entries place entry hentry] at hfree
      cases hfree

/-- Putting an entry where there is none lets the disk grow. -/
theorem grows_put {disk : Disk} {place : Location} (hfree : disk.entry? place = none)
    (entry : Entry) : Grows disk (disk.put place entry) where
  here := rfl
  entries := by
    intro place' entry' hentry'
    rw [entry?_put]
    -- the root is a directory on every disk
    by_cases hroot : place' = []
    · subst hroot
      rw [if_pos rfl]
      exact hentry'
    · have hne : place' ≠ place := by
        rintro rfl
        rw [hfree] at hentry'
        cases hentry'
      rw [if_neg hroot, if_neg hne]
      exact hentry'

variable {disk later : Disk} {path : String} {content : ByteArray}

/-! ## Paths on grown disks -/

/-- A name leads on if it is one of the dots, or is short and names a directory. -/
theorem enter_eq_ok_iff {place place' : Location} {name : String} :
    disk.enter place name = .ok place' ↔ place' = walk place name
      ∧ (name = "." ∨ name = ".."
        ∨ isLongName name = false ∧ disk.entry? (place ++ [name]) = some .directory) := by
  rw [enter, walk]
  by_cases hdot : name = "."
  · rw [if_pos hdot, if_pos hdot, and_iff_left (Or.inl hdot), Except.ok.injEq, eq_comm]
  by_cases hup : name = ".."
  · rw [if_neg hdot, if_neg hdot, if_pos hup, if_pos hup, and_iff_left (Or.inr (Or.inl hup)),
      Except.ok.injEq, eq_comm]
  rw [if_neg hdot, if_neg hdot, if_neg hup, if_neg hup, or_iff_right hdot, or_iff_right hup]
  -- all that is left is looked up
  by_cases hlong : isLongName name = true
  · simp [hlong]
  rw [if_neg hlong]
  cases disk.entry? (place ++ [name]) with
  | none => simp
  | some entry =>
      cases entry with
      | directory => simp [hlong, eq_comm]
      | file content => simp

/-- A directory that a name led to is still there. -/
theorem KeepsDirectories.enter (h : KeepsDirectories disk later) {place place' : Location}
    {name : String}
    (hok : disk.enter place name = .ok place') : later.enter place name = .ok place' := by
  rw [enter_eq_ok_iff] at hok ⊢
  obtain ⟨hplace, hway⟩ := hok
  refine ⟨hplace, ?_⟩
  rcases hway with hdot | hup | ⟨hshort, hentry⟩
  · exact Or.inl hdot
  · exact Or.inr (Or.inl hup)
  · exact Or.inr (Or.inr ⟨hshort, h.directories _ hentry⟩)

/-- Names that led to a directory still lead there. -/
theorem KeepsDirectories.foldlM_enter (h : KeepsDirectories disk later) {names : List String}
    {place place' : Location} (hok : names.foldlM disk.enter place = .ok place') :
    names.foldlM later.enter place = .ok place' := by
  induction names generalizing place with
  | nil => exact hok
  | cons name names ih =>
      rw [List.foldlM_cons] at hok ⊢
      obtain ⟨next, hname, hrest⟩ := eq_ok_of_bind hok
      rw [h.enter hname]
      exact ih hrest

theorem KeepsDirectories.begin (h : KeepsDirectories disk later) (path : String) :
    later.begin path = disk.begin path := by
  rw [Disk.begin, Disk.begin, h.here]

/-- While the directories stay, a path that led somewhere leads there. -/
theorem KeepsDirectories.target (h : KeepsDirectories disk later) {t : Target}
    (hok : disk.target path = .ok t) :
    later.target path = .ok t := by
  rw [Disk.target] at hok ⊢
  obtain ⟨start, hstart, hok⟩ := eq_ok_of_bind hok
  rw [h.begin, hstart, ok_bind]
  cases hlast : (Path.names path).getLast? with
  | none =>
      simp only [hlast] at hok
      exact hok
  | some last =>
      simp only [hlast] at hok
      obtain ⟨parent, hparent, hok⟩ := eq_ok_of_bind hok
      simp only [h.foldlM_enter hparent]
      show (if _ then _ else _) = _
      by_cases hdots : (last = "." || last = "..") = true
      · rw [if_pos hdots] at hok ⊢
        obtain ⟨place, henter, hok⟩ := eq_ok_of_bind hok
        rw [h.enter henter]
        exact hok
      · rw [if_neg hdots] at hok ⊢
        exact hok

theorem Grows.foldlM_enter (h : Grows disk later) {names : List String}
    {place place' : Location} (hok : names.foldlM disk.enter place = .ok place') :
    names.foldlM later.enter place = .ok place' :=
  h.keepsDirectories.foldlM_enter hok

theorem Grows.begin (h : Grows disk later) (path : String) :
    later.begin path = disk.begin path :=
  h.keepsDirectories.begin path

theorem Grows.target (h : Grows disk later) {t : Target} (hok : disk.target path = .ok t) :
    later.target path = .ok t :=
  h.keepsDirectories.target hok

/-! ## Where a path leads -/

/-- Whether a path leads to a name at a location. -/
def Leads (disk : Disk) (path : String) (place : Location) : Prop :=
  ∃ (parent : Location) (last : String), disk.target path = .ok (.name parent last)
    ∧ isLongName last = false ∧ place = parent ++ [last]

theorem KeepsDirectories.leads (h : KeepsDirectories disk later) {place : Location}
    (hleads : disk.Leads path place) : later.Leads path place := by
  obtain ⟨parent, last, htarget, hshort, rfl⟩ := hleads
  exact ⟨parent, last, h.target htarget, hshort, rfl⟩

theorem Grows.leads (h : Grows disk later) {place : Location} (hleads : disk.Leads path place) :
    later.Leads path place :=
  h.keepsDirectories.leads hleads

/-- Finding looks at the location that a path leads to. -/
theorem Leads.find {place : Location} (h : disk.Leads path place) :
    disk.find path = match disk.entry? place with
      | none => .error .missing
      | some .directory => .ok .directory
      | some (.file content) =>
          if Path.endsInSlash path then .error .notDirectory else .ok (.file content) := by
  obtain ⟨parent, last, htarget, hshort, rfl⟩ := h
  rw [Disk.find, htarget]
  show (if isLongName last then _ else _) = _
  rw [hshort, if_neg Bool.false_ne_true]
  cases disk.entry? (parent ++ [last]) with
  | none => rfl
  | some entry =>
      cases entry with
      | directory => rfl
      | file content =>
          show (if _ then _ else _) = _
          by_cases hslash : Path.endsInSlash path = true
          · rw [if_pos hslash]
            exact (if_pos hslash).symm
          · rw [if_neg hslash]
            exact (if_neg hslash).symm

theorem Leads.read {place : Location} (h : disk.Leads path place)
    (hslash : Path.endsInSlash path = false) (hfile : disk.entry? place = some (.file content)) :
    disk.read path = .ok content := by
  have hfind : disk.find path = .ok (.file content) := by
    rw [h.find, hfile]
    exact if_neg (Bool.eq_false_iff.mp hslash)
  rw [Disk.read, hfind]
  rfl

/-! ## Requests that add an entry -/

/-- A directory is made at a name where there was nothing before. -/
theorem of_makeDirectoryAt {t : Target} (h : disk.makeDirectoryAt t = .ok later) :
    ∃ (parent : Location) (last : String), t = .name parent last ∧ isLongName last = false
      ∧ disk.entry? (parent ++ [last]) = none ∧ later = disk.put (parent ++ [last]) .directory := by
  cases t with
  | directory place => cases h
  | name parent last =>
      rw [makeDirectoryAt] at h
      by_cases hlong : isLongName last = true
      · simp only [hlong] at h
        cases h
      refine ⟨parent, last, rfl, Bool.eq_false_iff.mpr hlong, ?_⟩
      simp only [hlong] at h
      cases hentry : disk.entry? (parent ++ [last]) with
      | some entry => simp only [hentry] at h; cases h
      | none => simp only [hentry] at h; cases h; exact ⟨rfl, rfl⟩

/-- A file is created at a name where there was nothing before. -/
theorem of_createAt {t : Target} (h : disk.createAt path content t = .ok later) :
    ∃ (parent : Location) (last : String), t = .name parent last ∧ isLongName last = false
      ∧ disk.entry? (parent ++ [last]) = none ∧ Path.endsInSlash path = false
      ∧ later = disk.put (parent ++ [last]) (.file content) := by
  cases t with
  | directory place => cases h
  | name parent last =>
      rw [createAt] at h
      by_cases hslash : Path.endsInSlash path = true
      · simp only [hslash] at h
        cases h
      by_cases hlong : isLongName last = true
      · simp only [hslash, hlong] at h
        cases h
      refine ⟨parent, last, rfl, Bool.eq_false_iff.mpr hlong, ?_⟩
      simp only [hslash, hlong] at h
      cases hentry : disk.entry? (parent ++ [last]) with
      | some entry => simp only [hentry] at h; cases h
      | none =>
          simp only [hentry] at h
          cases h
          exact ⟨rfl, Bool.eq_false_iff.mpr hslash, rfl⟩

/-- A directory that is made stands where its path leads, and there was nothing
    before. -/
theorem of_makeDirectory (h : disk.makeDirectory path = .ok later) :
    ∃ place : Location, disk.Leads path place ∧ disk.entry? place = none
      ∧ later = disk.put place .directory := by
  rw [makeDirectory] at h
  obtain ⟨t, htarget, h⟩ := eq_ok_of_bind h
  obtain ⟨parent, last, rfl, hshort, hfree, rfl⟩ := of_makeDirectoryAt h
  exact ⟨parent ++ [last], ⟨parent, last, htarget, hshort, rfl⟩, hfree, rfl⟩

/-- A file that is created stands where its path leads, and there was nothing
    before. -/
theorem of_create (h : disk.create path content = .ok later) :
    ∃ place : Location, disk.Leads path place ∧ disk.entry? place = none
      ∧ Path.endsInSlash path = false ∧ later = disk.put place (.file content) := by
  rw [create] at h
  obtain ⟨t, htarget, h⟩ := eq_ok_of_bind h
  obtain ⟨parent, last, rfl, hshort, hfree, hslash, rfl⟩ := of_createAt h
  exact ⟨parent ++ [last], ⟨parent, last, htarget, hshort, rfl⟩, hfree, hslash, rfl⟩

theorem grows_makeDirectory (h : disk.makeDirectory path = .ok later) : Grows disk later := by
  obtain ⟨place, -, hfree, rfl⟩ := of_makeDirectory h
  exact grows_put hfree _

theorem grows_create (h : disk.create path content = .ok later) : Grows disk later := by
  obtain ⟨place, -, hfree, -, rfl⟩ := of_create h
  exact grows_put hfree _

end Disk

end Stencil.Files
