import Stencil.Files.Job
import Stencil.Proofs.Files.Growth
import Stencil.Proofs.Path

/-! # Where paths lead

    There are no links on a disk, so where a path leads, if it leads anywhere, can
    be told from its names alone (`Leads.eq_follow`): `follow` walks down for a
    name and up for two dots, without looking.

    So what is made at some paths stands where their names lead (`AddsWaysTo`), and
    what is found or refused at a path tells what stands there. -/

namespace Stencil.Files

/-! ## Walking without looking -/

/-- Where names lead from a place. -/
def follow (place : Location) (names : List String) : Location :=
  names.foldl walk place

@[simp] theorem follow_nil (place : Location) : follow place [] = place := rfl

@[simp] theorem follow_append (place : Location) (names names' : List String) :
    follow place (names ++ names') = follow (follow place names) names' :=
  List.foldl_append

/-- Names that are no dots lead down. -/
theorem follow_of_no_dots {names : List String} (h : ∀ name ∈ names, name ≠ "." ∧ name ≠ "..")
    (place : Location) : follow place names = place ++ names := by
  induction names generalizing place with
  | nil => exact (List.append_nil place).symm
  | cons name names ih =>
      obtain ⟨hdot, hup⟩ := h name (List.mem_cons_self ..)
      have hrest := ih (fun n hn => h n (List.mem_cons_of_mem _ hn)) (walk place name)
      show follow (walk place name) names = _
      rw [hrest, walk, if_neg hdot, if_neg hup, List.append_assoc]
      rfl

namespace Disk

variable {disk later : Disk} {path : String} {place : Location}

/-- Where a path begins. -/
def startOf (disk : Disk) (path : String) : Location :=
  if Path.isAbsolute path then [] else disk.here

/-- Names that lead somewhere lead where they would without looking. -/
theorem eq_follow_of_foldlM {names : List String} {place' : Location}
    (h : names.foldlM disk.enter place = .ok place') : place' = follow place names := by
  induction names generalizing place with
  | nil => exact (Except.ok.inj h).symm
  | cons name names ih =>
      rw [List.foldlM_cons] at h
      obtain ⟨next, hnext, hrest⟩ := eq_ok_of_bind h
      rw [ih hrest, (enter_eq_ok_iff.mp hnext).1]
      rfl

/-- A path begins somewhere if it is neither empty nor too long, and has no null
    character. -/
theorem begin_eq_ok_iff {start : Location} :
    disk.begin path = .ok start ↔ path ≠ "" ∧ '\x00' ∉ path.toList
      ∧ path.utf8ByteSize ≤ 4095 ∧ start = disk.startOf path := by
  rw [begin, startOf]
  by_cases hempty : path = ""
  · simp [hempty]
  by_cases hnul : '\x00' ∈ path.toList
  · simp [hempty, hnul]
  by_cases hlong : 4095 < path.utf8ByteSize
  · have hsize : ¬ path.utf8ByteSize ≤ 4095 := Nat.not_le.mpr hlong
    simp only [String.isEmpty_iff, hempty, List.contains_iff_mem, hnul, hlong, hsize, if_true,
      if_false, false_and, and_false, reduceCtorEq]
  · simp only [String.isEmpty_iff, hempty, List.contains_iff_mem, hnul, hlong, if_false,
      ne_eq, not_false_eq_true, true_and, Except.ok.injEq]
    rw [and_iff_right (by omega), eq_comm]

theorem eq_startOf_of_begin {start : Location} (h : disk.begin path = .ok start) :
    start = disk.startOf path :=
  (begin_eq_ok_iff.mp h).2.2.2

/-- Where a path leads can be told from its names. -/
theorem Leads.eq_follow (h : disk.Leads path place) :
    place = follow (disk.startOf path) (Path.names path) := by
  obtain ⟨parent, last, htarget, -, rfl⟩ := h
  rw [target] at htarget
  obtain ⟨start, hstart, htarget⟩ := eq_ok_of_bind htarget
  cases hlast : (Path.names path).getLast? with
  | none => simp only [hlast] at htarget; cases htarget
  | some name =>
      simp only [hlast] at htarget
      obtain ⟨place, hplace, htarget⟩ := eq_ok_of_bind htarget
      by_cases hdots : (name = "." || name = "..") = true
      · rw [if_pos hdots] at htarget
        obtain ⟨up, -, htarget⟩ := eq_ok_of_bind htarget
        cases htarget
      · rw [if_neg hdots] at htarget
        cases htarget
        -- all names but the last were entered, and the last one leads down
        obtain ⟨names, hnames⟩ := List.getLast?_eq_some_iff.mp hlast
        rw [hnames, List.dropLast_concat] at hplace
        have hnodots : ∀ name ∈ [last], name ≠ "." ∧ name ≠ ".." :=
          fun name hname => List.mem_singleton.mp hname ▸ Path.neither_dots_iff.mp hdots
        rw [hnames, follow_append, follow_of_no_dots hnodots, eq_follow_of_foldlM hplace,
          eq_startOf_of_begin hstart]

theorem Grows.startOf (h : Grows disk later) (path : String) :
    later.startOf path = disk.startOf path := by
  rw [Disk.startOf, Disk.startOf, h.here]

/-! ## Taken places -/

theorem bind_ne_error {ε α β : Type} {x : Except ε α} {f : α → Except ε β} {reason : ε}
    (hx : x ≠ .error reason) (hf : ∀ a, f a ≠ .error reason) : (x >>= f) ≠ .error reason := by
  cases x with
  | error other => exact fun h => hx (congrArg Except.error (Except.error.inj h))
  | ok a => exact hf a

/-- Entering a directory is never refused because something is there. -/
theorem enter_ne_occupied (disk : Disk) (place : Location) (name : String) :
    disk.enter place name ≠ .error .occupied := by
  rw [enter]
  split
  · intro h; cases h
  split
  · intro h; cases h
  split
  · intro h; cases h
  cases disk.entry? (place ++ [name]) with
  | none => intro h; cases h
  | some entry => cases entry <;> (intro h; cases h)

/-- Following a path is never refused because something is there. -/
theorem target_ne_occupied (disk : Disk) (path : String) :
    disk.target path ≠ .error .occupied := by
  have hbegin : disk.begin path ≠ .error .occupied := by
    rw [begin]
    split
    · intro h; cases h
    split
    · intro h; cases h
    split <;> (intro h; cases h)
  -- only entering could refuse, and it never does so for this reason
  have hfold : ∀ (names : List String) (place : Location),
      names.foldlM disk.enter place ≠ .error .occupied := by
    intro names
    induction names with
    | nil => intro place h; cases h
    | cons name names ih =>
        intro place
        rw [List.foldlM_cons]
        exact bind_ne_error (enter_ne_occupied disk place name) ih
  rw [target]
  refine bind_ne_error hbegin fun start => ?_
  split
  · intro h; cases h
  · refine bind_ne_error (hfold _ start) fun parent => ?_
    split
    · exact bind_ne_error (enter_ne_occupied disk parent _) fun place h => by cases h
    · intro h; cases h

variable {last : String}

/-- A path whose last name is no dots leads to that name. -/
theorem leads_of_target (hlast : (Path.names path).getLast? = some last)
    (hdots : last ≠ "." ∧ last ≠ "..") {t : Target} (h : disk.target path = .ok t) :
    ∃ parent : Location, t = .name parent last := by
  rw [target] at h
  obtain ⟨start, -, h⟩ := eq_ok_of_bind h
  simp only [hlast] at h
  obtain ⟨parent, -, h⟩ := eq_ok_of_bind h
  rw [if_neg (Path.neither_dots_iff.mpr hdots)] at h
  exact ⟨parent, (Except.ok.inj h).symm⟩

/-- The place that a path leads to has its last name. -/
theorem Leads.getLast? (h : disk.Leads path place) :
    place.getLast? = (Path.names path).getLast? := by
  obtain ⟨parent, last, htarget, -, rfl⟩ := h
  rw [target] at htarget
  obtain ⟨start, -, htarget⟩ := eq_ok_of_bind htarget
  cases hlast : (Path.names path).getLast? with
  | none => simp only [hlast] at htarget; cases htarget
  | some name =>
      simp only [hlast] at htarget
      obtain ⟨parent', -, htarget⟩ := eq_ok_of_bind htarget
      by_cases hdots : (name = "." || name = "..") = true
      · rw [if_pos hdots] at htarget
        obtain ⟨up, -, htarget⟩ := eq_ok_of_bind htarget
        cases htarget
      · rw [if_neg hdots] at htarget
        cases htarget
        exact List.getLast?_concat

/-- A path at which something is found leads to it. -/
theorem leads_of_find (hlast : (Path.names path).getLast? = some last)
    (hdots : last ≠ "." ∧ last ≠ "..") {entry : Entry} (h : disk.find path = .ok entry) :
    ∃ parent : Location, disk.Leads path (parent ++ [last])
      ∧ disk.entry? (parent ++ [last]) = some entry := by
  have hfind := h
  rw [Disk.find] at h
  obtain ⟨t, htarget, h⟩ := eq_ok_of_bind h
  obtain ⟨parent, rfl⟩ := leads_of_target hlast hdots htarget
  rw [findAt] at h
  by_cases hlong : isLongName last = true
  · simp only [hlong] at h
    cases h
  have hleads : disk.Leads path (parent ++ [last]) :=
    ⟨parent, last, htarget, Bool.eq_false_iff.mpr hlong, rfl⟩
  refine ⟨parent, hleads, ?_⟩
  rw [hleads.find] at hfind
  cases hentry : disk.entry? (parent ++ [last]) with
  | none => simp only [hentry] at hfind; cases hfind
  | some found =>
      simp only [hentry] at hfind
      cases found with
      | directory => exact congrArg some (Except.ok.inj hfind)
      | file content =>
          simp only at hfind
          split at hfind
          · cases hfind
          · exact congrArg some (Except.ok.inj hfind)

/-- What is found at a path stands where its names lead. -/
theorem entry?_of_find (hlast : (Path.names path).getLast? = some last)
    (hdots : last ≠ "." ∧ last ≠ "..") {entry : Entry} (h : disk.find path = .ok entry) :
    disk.entry? (follow (disk.startOf path) (Path.names path)) = some entry := by
  obtain ⟨parent, hleads, hentry⟩ := leads_of_find hlast hdots h
  rw [← hleads.eq_follow]
  exact hentry

/-- What was found at a path is found there on a grown disk. -/
theorem Grows.find (h : Grows disk later) {entry : Entry} (hfind : disk.find path = .ok entry) :
    later.find path = .ok entry := by
  rw [Disk.find] at hfind ⊢
  obtain ⟨t, htarget, hfind⟩ := eq_ok_of_bind hfind
  rw [h.target htarget, ok_bind]
  cases t with
  | directory place => exact hfind
  | name parent last =>
      rw [findAt] at hfind ⊢
      by_cases hlong : isLongName last = true
      · simp only [hlong] at hfind
        cases hfind
      cases hentry : disk.entry? (parent ++ [last]) with
      | none => simp only [hlong, hentry] at hfind; cases hfind
      | some found =>
          have hlater := h.entries _ _ hentry
          simp only [hlong, hentry] at hfind
          simp only [hlong, hlater]
          exact hfind

/-- What is read is the content of the file that is found. -/
theorem find_of_read {content : ByteArray} (h : disk.read path = .ok content) :
    disk.find path = .ok (.file content) := by
  rw [read] at h
  obtain ⟨entry, hfind, h⟩ := eq_ok_of_bind h
  cases entry with
  | directory => cases h
  | file found =>
      obtain rfl := Except.ok.inj h
      exact hfind

/-- Where a file is found, its text is read. -/
theorem run_readText_of_find {content : ByteArray} (h : disk.find path = .ok (.file content)) :
    (Job.readText path).run disk = (Job.decode content, disk) := by
  show ((disk.read path).bind Job.decode, disk) = _
  rw [read, h]
  rfl

/-- A file is refused as being there only if something stands where the names of
    its path lead. -/
theorem entry?_of_occupied (hlast : (Path.names path).getLast? = some last)
    (hdots : last ≠ "." ∧ last ≠ "..") {content : ByteArray}
    (h : disk.create path content = .error .occupied) :
    disk.entry? (follow (disk.startOf path) (Path.names path)) ≠ none := by
  intro hfree
  rw [create] at h
  cases htarget : disk.target path with
  | error reason =>
      rw [htarget] at h
      have hreason : reason = .occupied := Except.error.inj h
      exact target_ne_occupied disk path (hreason ▸ htarget)
  | ok t =>
      obtain ⟨parent, rfl⟩ := leads_of_target hlast hdots htarget
      rw [htarget, ok_bind, createAt] at h
      by_cases hslash : Path.endsInSlash path = true
      · simp only [hslash] at h
        cases h
      by_cases hlong : isLongName last = true
      · simp only [hslash, hlong] at h
        cases h
      have hleads : disk.Leads path (parent ++ [last]) :=
        ⟨parent, last, htarget, Bool.eq_false_iff.mpr hlong, rfl⟩
      rw [← hleads.eq_follow] at hfree
      simp only [hslash, hlong, hfree] at h
      cases h

/-- A file is refused as being there only if something is found at its path. -/
theorem find_of_occupied {content : ByteArray} (h : disk.create path content = .error .occupied) :
    ∃ entry : Entry, disk.find path = .ok entry := by
  rw [create] at h
  rw [Disk.find]
  cases htarget : disk.target path with
  | error reason =>
      rw [htarget] at h
      have hreason : reason = .occupied := Except.error.inj h
      exact absurd (hreason ▸ htarget) (target_ne_occupied disk path)
  | ok t =>
      rw [htarget, ok_bind] at h
      rw [ok_bind]
      cases t with
      | directory place => exact ⟨.directory, rfl⟩
      | name parent last =>
          rw [createAt] at h
          rw [findAt]
          by_cases hslash : Path.endsInSlash path = true
          · simp only [hslash] at h
            cases h
          by_cases hlong : isLongName last = true
          · simp only [hslash, hlong] at h
            cases h
          cases hentry : disk.entry? (parent ++ [last]) with
          | none => simp only [hslash, hlong, hentry] at h; cases h
          | some entry =>
              simp only [hlong, hslash]
              cases entry with
              | directory => exact ⟨.directory, rfl⟩
              | file content => exact ⟨.file content, rfl⟩

/-- Where something is found, creating a file is refused. -/
theorem create_of_find (hlast : (Path.names path).getLast? = some last)
    (hdots : last ≠ "." ∧ last ≠ "..") (hslash : Path.endsInSlash path = false) {entry : Entry}
    (h : disk.find path = .ok entry) (content : ByteArray) :
    disk.create path content = .error .occupied := by
  obtain ⟨parent, ⟨parent', last', htarget, hshort, hplace⟩, hentry⟩ := leads_of_find hlast hdots h
  rw [hplace] at hentry
  rw [create, htarget, ok_bind, createAt]
  simp only [hslash, hshort, hentry]
  rfl

/-- A created file is found and read at its path, where nothing was found before. -/
theorem find_of_create {content : ByteArray} (h : disk.create path content = .ok later) :
    (∀ entry : Entry, disk.find path ≠ .ok entry) ∧ later.find path = .ok (.file content)
      ∧ later.read path = .ok content := by
  have hgrows := grows_create h
  obtain ⟨place, hleads, hfree, hslash, rfl⟩ := of_create h
  have hthere := entry?_put_self (ne_root_of_free hfree) disk (.file content)
  refine ⟨?_, ?_, (hgrows.leads hleads).read hslash hthere⟩
  · intro entry hfind
    rw [hleads.find, hfree] at hfind
    cases hfind
  · rw [(hgrows.leads hleads).find, hthere]
    exact if_neg (Bool.eq_false_iff.mp hslash)

/-! ## Directories on the way -/

/-- Whether all that a later disk has more are directories where one of some paths
    leads. -/
def AddsWaysTo (disk later : Disk) (paths : List String) : Prop :=
  ∀ place entry, later.entry? place = some entry → disk.entry? place = some entry
    ∨ ∃ path ∈ paths, place = follow (disk.startOf path) (Path.names path)

/-- Making a directory adds one where its path leads. -/
theorem addsWaysTo_makeDirectory {paths : List String} (hpath : path ∈ paths)
    (h : disk.makeDirectory path = .ok later) : AddsWaysTo disk later paths := by
  obtain ⟨made, hleads, -, rfl⟩ := of_makeDirectory h
  intro place entry hentry
  rcases eq_of_entry?_put hentry with hthere | ⟨rfl, -⟩
  · exact Or.inl hthere
  · exact Or.inr ⟨path, hpath, hleads.eq_follow⟩

theorem AddsWaysTo.refl (disk : Disk) (paths : List String) : AddsWaysTo disk disk paths :=
  fun _ _ h => Or.inl h

theorem AddsWaysTo.trans {last : Disk} {paths : List String} (h : AddsWaysTo disk later paths)
    (hgrows : Grows disk later) (h' : AddsWaysTo later last paths) :
    AddsWaysTo disk last paths := by
  intro place entry hentry
  rcases h' place entry hentry with hlater | ⟨path, hpath, hplace⟩
  · exact h place entry hlater
  · rw [hgrows.startOf] at hplace
    exact Or.inr ⟨path, hpath, hplace⟩

end Disk

end Stencil.Files
