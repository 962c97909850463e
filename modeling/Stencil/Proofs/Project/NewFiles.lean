import Stencil.Project.NewFile
import Stencil.Proofs.Files.Directories
import Stencil.Proofs.Files.Links

/-! # What writing a new file does

    An attempt to write a new file makes directories on the way and then creates
    the file.  It writes that one file if it says so, and otherwise none
    (`writes_writeNewFile`); all else that it adds are directories where the
    parents of the path lead (`of_writeNewFile`).

    Where something is found already, the disk stays as it is
    (`run_writeNewFile_of_find`); and where no file stands in the way of these
    directories it does not fail (`Room.run_writeNewFile`). -/

namespace Stencil.Project

open Files (Disk Job LinkedDisk Location Refusal Write follow follow_append)

variable {α β : Type}

/-! ## Attempts -/

/-- An attempt goes on on the disk that the first part leaves, unless that part
    fails. -/
theorem Attempt.run_bind (disk : Disk) (x : Attempt α) (f : α → Attempt β) :
    (x >>= f).run.run disk = match x.run.run disk with
      | (.ok a, later) => (f a).run.run later
      | (.error failure, later) => (.error failure, later) := by
  rw [ExceptT.run_bind, Job.run_bind]
  cases x.run.run disk with
  | mk outcome later => cases outcome <;> rfl

/-- An attempt whose result is put into a report runs as the attempt does. -/
theorem Attempt.run_map (disk : Disk) (x : Attempt α) (f : α → β) :
    (do return f (← x) : Attempt β).run.run disk
      = Prod.map (Except.map f) id (x.run.run disk) := by
  rw [Attempt.run_bind]
  obtain ⟨outcome, later⟩ := x.run.run disk
  cases outcome <;> rfl

theorem Attempt.of_run_map {f : α → β} {x : Except Failure α × Disk} {result : β}
    {final : Disk} (h : Prod.map (Except.map f) id x = (.ok result, final)) :
    ∃ a : α, x = (.ok a, final) ∧ f a = result := by
  obtain ⟨outcome, last⟩ := x
  cases outcome with
  | error failure => cases h
  | ok a =>
      cases h
      exact ⟨a, rfl, rfl⟩

theorem Attempt.runLinked_bind (linked : LinkedDisk) (x : Attempt α) (f : α → Attempt β) :
    (x >>= f).run.runLinked linked = match x.run.runLinked linked with
      | (.ok a, later) => (f a).run.runLinked later
      | (.error failure, later) => (.error failure, later) := by
  rw [ExceptT.run_bind, Job.runLinked_bind]
  cases x.run.runLinked linked with
  | mk outcome later => cases outcome <;> rfl

theorem Attempt.of_runLinked_bind {linked : LinkedDisk} {x : Attempt α} {f : α → Attempt β}
    {b : β} (h : ((x >>= f).run.runLinked linked).1 = .ok b) :
    ∃ a : α, (x.run.runLinked linked).1 = .ok a
      ∧ ((f a).run.runLinked (x.run.runLinked linked).2).1 = .ok b := by
  rw [Attempt.runLinked_bind] at h
  cases hx : x.run.runLinked linked with
  | mk outcome later =>
      rw [hx] at h
      cases outcome with
      | error failure => cases h
      | ok a => exact ⟨a, rfl, h⟩

theorem Attempt.runLinked_lift (linked : LinkedDisk) (job : Job α) :
    (liftM job : Attempt α).run.runLinked linked
      = (.ok (job.runLinked linked).1, (job.runLinked linked).2) :=
  Job.runLinked_bind linked job (Job.done ∘ Except.ok)

theorem Attempt.writes_bind (disk : Disk) (x : Attempt α) (f : α → Attempt β) :
    (x >>= f).run.writes disk = x.run.writes disk ++ match x.run.run disk with
      | (.ok a, later) => (f a).run.writes later
      | (.error _, _) => [] := by
  rw [ExceptT.run_bind, Job.writes_bind]
  cases x.run.run disk with
  | mk outcome later => cases outcome <;> rfl

theorem Attempt.reads_bind (disk : Disk) (x : Attempt α) (f : α → Attempt β) :
    (x >>= f).run.reads disk = x.run.reads disk ++ match x.run.run disk with
      | (.ok a, later) => (f a).run.reads later
      | (.error _, _) => [] := by
  rw [ExceptT.run_bind, Job.reads_bind]
  cases x.run.run disk with
  | mk outcome later => cases outcome <;> rfl

theorem Attempt.run_lift (disk : Disk) (job : Job α) :
    (liftM job : Attempt α).run.run disk = (.ok (job.run disk).1, (job.run disk).2) :=
  Job.run_bind disk job (Job.done ∘ Except.ok)

theorem Attempt.writes_lift (disk : Disk) (job : Job α) :
    (liftM job : Attempt α).run.writes disk = job.writes disk :=
  (Job.writes_bind disk job (Job.done ∘ Except.ok)).trans (List.append_nil _)

theorem Attempt.reads_lift (disk : Disk) (job : Job α) :
    (liftM job : Attempt α).run.reads disk = job.reads disk :=
  (Job.reads_bind disk job (Job.done ∘ Except.ok)).trans (List.append_nil _)

/-! ## New files -/

/-- The paths of the directories on the way to a path. -/
def waysTo (path : String) : List String :=
  match Path.parent? path with
  | some parent => Path.ancestors parent
  | none => []

/-- A way to a path begins where the path does, with the first of its names. -/
theorem names_of_mem_waysTo {path way : String} (h : way ∈ waysTo path) :
    Path.isAbsolute way = Path.isAbsolute path
      ∧ ∃ more : List String, Path.names way ++ more = Path.names path
        ∧ (Path.endsInSlash path = false → more ≠ []) := by
  rw [waysTo] at h
  cases hparent : Path.parent? path with
  | none => rw [hparent] at h; cases h
  | some parent =>
      rw [hparent] at h
      obtain ⟨hstart, more, hmore⟩ := Path.names_of_mem_ancestors h
      obtain ⟨hstart', more', hmore', hstrict⟩ := Path.names_parent? hparent
      refine ⟨hstart.trans hstart', more ++ more', ?_, fun hslash =>
        List.append_ne_nil_of_right_ne_nil _ (hstrict hslash)⟩
      rw [hmore', hmore, List.append_assoc]

/-- Making the directory that a path lies in makes only those on the way. -/
theorem makesOnly_makeParent (path : String) : (makeParent path).run.MakesOnly (waysTo path) := by
  rw [makeParent, waysTo]
  cases Path.parent? path with
  | none => exact trivial
  | some parent =>
      refine Job.MakesOnly.bind (Job.MakesOnly.bind (Job.makesOnly_makeChain _)
        fun _ => trivial) ?_
      intro outcome
      cases outcome with
      | error failure => exact trivial
      | ok answer => cases answer <;> exact trivial

/-- Writing a new file makes directories on the way and then creates the file; that
    something is there already is no failure, every other refusal is. -/
theorem run_writeNewFile (disk : Disk) (root path text : String) :
    (writeNewFile root path text).run.run disk
      = match (makeParent (Path.join root path)).run.run disk with
        | (.error failure, mid) => (.error failure, mid)
        | (.ok _, mid) =>
            match mid.create (Path.join root path) text.toUTF8 with
            | .ok later => (.ok .written, later)
            | .error .occupied => (.ok .alreadyThere, mid)
            | .error reason => (.error (.file (Path.join root path) reason), mid) := by
  rw [writeNewFile, Attempt.run_bind]
  obtain ⟨made, mid⟩ := (makeParent (Path.join root path)).run.run disk
  cases made with
  | error failure => rfl
  | ok _ =>
      simp only [Attempt.run_bind, Attempt.run_lift, Job.createFile, Job.run]
      cases mid.create (Path.join root path) text.toUTF8 with
      | ok later => rfl
      | error reason => cases reason <;> rfl

/-- The file that an outcome says was written. -/
def writtenFile (path text : String) : Except Failure WriteOutcome → List Write
  | .ok .written => [⟨path, text⟩]
  | .ok .alreadyThere => []
  | .error _ => []

/-- Writing a new file writes that file if it says so, and otherwise none. -/
theorem writes_writeNewFile (disk : Disk) (root path text : String) :
    (writeNewFile root path text).run.writes disk
      = writtenFile (Path.join root path) text
          ((writeNewFile root path text).run.run disk).1 := by
  rw [writeNewFile, Attempt.writes_bind, Attempt.run_bind,
    (makesOnly_makeParent (Path.join root path)).writes_eq_nil]
  obtain ⟨outcome, later⟩ := (makeParent (Path.join root path)).run.run disk
  cases outcome with
  | error failure => rfl
  | ok _ =>
      rw [List.nil_append]
      simp only [Attempt.writes_bind, Attempt.run_bind, Attempt.run_lift, Attempt.writes_lift]
      rw [Job.createFile, Job.writes, Job.run]
      cases later.create (Path.join root path) text.toUTF8 with
      | ok last => rfl
      | error reason => cases reason <;> rfl

/-- What is written is that file, and it is said to be. -/
theorem of_mem_writes {disk : Disk} {root path text : String} {write : Write}
    (h : write ∈ (writeNewFile root path text).run.writes disk) :
    ((writeNewFile root path text).run.run disk).1 = .ok .written
      ∧ write = ⟨Path.join root path, text⟩ := by
  rw [writes_writeNewFile] at h
  cases hresult : ((writeNewFile root path text).run.run disk).1 with
  | error failure => rw [hresult] at h; cases h
  | ok outcome =>
      rw [hresult] at h
      cases outcome with
      | written => exact ⟨rfl, List.mem_singleton.mp h⟩
      | alreadyThere => cases h

/-- The answer of a request to create a file that an outcome goes back to. -/
def WriteOutcome.answer (later : Disk) : WriteOutcome → Except Refusal Disk
  | .written => .ok later
  | .alreadyThere => .error .occupied

/-- When writing a new file succeeds, its directory is made first, and then the file is
    created or refused as being there. -/
theorem mid_of_writeNewFile {disk later : Disk} {root path text : String} {outcome : WriteOutcome}
    (h : (writeNewFile root path text).run.run disk = (.ok outcome, later)) :
    ∃ mid : Disk, (makeParent (Path.join root path)).run.run disk = (.ok (), mid)
      ∧ (mid.create (Path.join root path) text.toUTF8 = .ok later ∧ outcome = .written
        ∨ mid.create (Path.join root path) text.toUTF8 = .error .occupied
          ∧ outcome = .alreadyThere ∧ later = mid) := by
  rw [run_writeNewFile] at h
  cases hmade : (makeParent (Path.join root path)).run.run disk with
  | mk made mid =>
      rw [hmade] at h
      cases made with
      | error failure => cases h
      | ok _ =>
          refine ⟨mid, rfl, ?_⟩
          simp only at h
          cases hcreate : mid.create (Path.join root path) text.toUTF8 with
          | ok last =>
              rw [hcreate] at h
              cases h
              exact Or.inl ⟨rfl, rfl⟩
          -- a file that is there already is no failure, all other refusals are
          | error reason =>
              rw [hcreate] at h
              cases reason with
              | occupied => cases h; exact Or.inr ⟨rfl, rfl, rfl⟩
              | _ => cases h

/-- Writing a new file makes directories on the way and then, if that succeeds,
    creates the file. -/
theorem of_writeNewFile {disk later : Disk} {root path text : String} {outcome : WriteOutcome}
    (h : (writeNewFile root path text).run.run disk = (.ok outcome, later)) :
    ∃ mid : Disk, disk.Grows mid ∧ Disk.AddsWaysTo disk mid (waysTo (Path.join root path))
      ∧ mid.create (Path.join root path) text.toUTF8 = outcome.answer later := by
  have hways := (makesOnly_makeParent (Path.join root path)).addsWaysTo disk
  have hgrows := Job.grows_run disk (makeParent (Path.join root path)).run
  obtain ⟨mid, hmade, hcreate⟩ := mid_of_writeNewFile h
  rw [hmade] at hways hgrows
  refine ⟨mid, hgrows, hways, ?_⟩
  rcases hcreate with ⟨hcreated, rfl⟩ | ⟨hrefused, rfl, -⟩
  · exact hcreated
  · exact hrefused

/-! ## Paths that are taken -/

section Taken

variable {disk : Disk} {path last : String} {entry : Files.Entry}

/-- On the way to what is found no directory is made. -/
theorem run_makeParent_of_find (hlast : (Path.names path).getLast? = some last) (hdot : last ≠ ".")
    (h : disk.find path = .ok entry) : (makeParent path).run.run disk = (.ok (), disk) := by
  obtain ⟨up, dots, hparent, -, hnames, -⟩ := Path.parent?_of_last hlast hdot
  have hmade : (Job.makeDirectories up).run disk = (.ok (), disk) := by
    by_cases hempty : up = ""
    · subst hempty
      rw [Job.makeDirectories, Path.ancestors]
      rfl
    obtain ⟨start, hbegin⟩ : ∃ start : Location, disk.begin path = .ok start := by
      rw [Disk.find] at h
      obtain ⟨t, htarget, -⟩ := Disk.eq_ok_of_bind h
      rw [Disk.target] at htarget
      obtain ⟨start, hbegin, -⟩ := Disk.eq_ok_of_bind htarget
      exact ⟨start, hbegin⟩
    have habsolute := (Path.names_parent? hparent).1
    have hbegin' :=
      Disk.begin_of_prefix hbegin (Path.toList_parent?_prefix hparent) habsolute hempty
    have hreaches : disk.Reaches up := by
      rw [← List.append_assoc] at hnames
      obtain ⟨place, hfront⟩ := Disk.foldlM_of_find hnames h
      rw [List.foldlM_append] at hfront
      obtain ⟨place, hup, -⟩ := Disk.eq_ok_of_bind hfront
      have hstart : disk.startOf up = disk.startOf path := by
        rw [Disk.startOf, Disk.startOf, habsolute]
      rw [Disk.Reaches, hstart, hup, Disk.eq_follow_of_foldlM hup]
    obtain ⟨more, hmore⟩ := Path.ancestors_cons hempty
    rw [Job.makeDirectories, hmore]
    exact Job.run_makeChain_of_leaves more (Or.inr
      ⟨Disk.makeDirectory_of_reaches hbegin' hreaches, Disk.find_of_reaches hbegin' hreaches, rfl⟩)
  rw [makeParent, hparent]
  simp only [Attempt.run_bind, Attempt.run_lift, hmade]
  rfl

/-- Where something is found, nothing is written, and the disk stays as it is. -/
theorem run_writeNewFile_of_find {root relative : String}
    (hlast : (Path.names (Path.join root relative)).getLast? = some last)
    (hdots : last ≠ "." ∧ last ≠ "..")
    (hslash : Path.endsInSlash (Path.join root relative) = false)
    (h : disk.find (Path.join root relative) = .ok entry) (text : String) :
    (writeNewFile root relative text).run.run disk = (.ok .alreadyThere, disk) := by
  rw [run_writeNewFile, run_makeParent_of_find hlast hdots.1 h]
  simp only [Disk.create_of_find hlast hdots hslash h]

end Taken

/-! ## Room for a file -/

/-- Whether there is room for a file at a path: no file stands in the way of its
    directories, and its last name is short and no dots. -/
structure Room (disk : Disk) (path : String) : Prop where
  begins : disk.begin path = .ok (disk.startOf path)
  clear : disk.Clear (disk.startOf path) (Path.names path).dropLast
  last : ∃ last : String, (Path.names path).getLast? = some last
    ∧ last ≠ "." ∧ last ≠ ".." ∧ Disk.isLongName last = false
  no_slash : Path.endsInSlash path = false

variable {disk later : Disk} {path : String}

theorem room_iff : Room disk path
    ↔ (path ≠ "" ∧ '\x00' ∉ path.toList ∧ path.utf8ByteSize ≤ 4095)
      ∧ disk.Clear (disk.startOf path) (Path.names path).dropLast
      ∧ (∃ last ∈ (Path.names path).getLast?,
          last ≠ "." ∧ last ≠ ".." ∧ Disk.isLongName last = false)
      ∧ Path.endsInSlash path = false := by
  constructor
  · rintro ⟨hbegin, hclear, hlast, hslash⟩
    obtain ⟨hne, hnul, hlong, -⟩ := Disk.begin_eq_ok_iff.mp hbegin
    exact ⟨⟨hne, hnul, hlong⟩, hclear, hlast, hslash⟩
  · rintro ⟨⟨hne, hnul, hlong⟩, hclear, hlast, hslash⟩
    exact ⟨Disk.begin_eq_ok_iff.mpr ⟨hne, hnul, hlong, rfl⟩, hclear, hlast, hslash⟩

instance : Decidable (Room disk path) := decidable_of_iff _ room_iff.symm

/-- Where there is room, the directory that the path lies in is made. -/
theorem Room.run_makeParent (h : Room disk path) :
    ∃ later : Disk, (makeParent path).run.run disk = (.ok (), later)
      ∧ (Path.names path).dropLast.foldlM later.enter (later.startOf path)
        = .ok (follow (later.startOf path) (Path.names path).dropLast) := by
  obtain ⟨last, hlast, hdot, -⟩ := h.last
  obtain ⟨up, dots, hparent, hdots, hnames, hsettled⟩ := Path.parent?_of_last hlast hdot
  have hclear := h.clear
  have habsolute := (Path.names_parent? hparent).1
  rw [hnames, ← List.append_assoc, List.dropLast_concat] at hclear ⊢
  have hstart : disk.startOf up = disk.startOf path := by
    rw [Disk.startOf, Disk.startOf, habsolute]
  have hmade : ∃ later : Disk,
      (Job.makeDirectories up).run disk = (.ok (), later) ∧ later.Reaches up := by
    by_cases hempty : up = ""
    · -- nothing is to be made for the empty path
      subst hempty
      refine ⟨disk, ?_, rfl⟩
      rw [Job.makeDirectories, Path.ancestors]
      rfl
    · exact Job.run_makeDirectories
        (Disk.begin_of_prefix h.begins (Path.toList_parent?_prefix hparent) habsolute hempty)
        (Disk.clear_append.mp hclear).1 hsettled
  obtain ⟨later, hrun, hreaches⟩ := hmade
  have hstart' : later.startOf up = later.startOf path := by
    rw [Disk.startOf, Disk.startOf, habsolute]
  refine ⟨later, ?_, ?_⟩
  · rw [makeParent, hparent]
    simp only [Attempt.run_bind, Attempt.run_lift, hrun]
    rfl
  · -- dots between the parent and the last name stay in the directory
    rw [Disk.Reaches, hstart'] at hreaches
    have hdots' := Disk.foldlM_of_onlyDots hdots later
      (follow (later.startOf path) (Path.names up))
    rw [List.foldlM_append, hreaches, follow_append, ← Disk.eq_follow_of_foldlM hdots']
    exact hdots'

/-- Where there is room, and the directory is made, a file is created unless there is
    something. -/
theorem Room.create (h : Room disk path) (content : ByteArray)
    (hfront : (Path.names path).dropLast.foldlM disk.enter (disk.startOf path)
      = .ok (follow (disk.startOf path) (Path.names path).dropLast)) :
    (∃ later : Disk, disk.create path content = .ok later)
      ∨ disk.create path content = .error .occupied := by
  obtain ⟨last, hlast, hdot, hup, hshort⟩ := h.last
  obtain ⟨front, hnames⟩ := List.getLast?_eq_some_iff.mp hlast
  rw [hnames, List.dropLast_concat] at hfront
  have htarget := Disk.target_of_names h.begins hnames
  rw [hfront] at htarget
  change _ = if _ then _ else _ at htarget
  rw [if_neg (Path.neither_dots_iff.mpr ⟨hdot, hup⟩)] at htarget
  rw [Disk.create, htarget]
  show (∃ later, (if Path.endsInSlash path then _ else _) = _) ∨ (if _ then _ else _) = _
  rw [h.no_slash, if_neg Bool.false_ne_true]
  show (∃ later, (if Disk.isLongName last then _ else _) = _) ∨ (if _ then _ else _) = _
  rw [hshort, if_neg Bool.false_ne_true]
  cases disk.entry? (follow (disk.startOf path) front ++ [last]) with
  | none => exact Or.inl ⟨_, rfl⟩
  | some entry => exact Or.inr rfl

/-- There was room for what is found later. -/
theorem room_of_find {last : String} {entry : Files.Entry} (hgrows : Disk.Grows disk later)
    (hlast : (Path.names path).getLast? = some last) (hdots : last ≠ "." ∧ last ≠ "..")
    (hslash : Path.endsInSlash path = false) (hfind : later.find path = .ok entry) :
    Room disk path := by
  have hstart := hgrows.startOf path
  obtain ⟨parent, ⟨_, last', htarget, hshort, hplace⟩, -⟩ := Disk.leads_of_find hlast hdots hfind
  obtain ⟨-, hlast'⟩ := List.append_inj' hplace rfl
  obtain rfl := List.singleton_inj.mp hlast'
  obtain ⟨front, hnames⟩ := List.getLast?_eq_some_iff.mp hlast
  constructor
  · rw [Disk.target] at htarget
    obtain ⟨start, hbegin, -⟩ := Disk.eq_ok_of_bind htarget
    rw [hgrows.begin] at hbegin
    exact Disk.eq_startOf_of_begin hbegin ▸ hbegin
  · obtain ⟨place, hfront⟩ := Disk.foldlM_of_find hnames hfind
    rw [hstart] at hfront
    rw [hnames, List.dropLast_concat]
    exact hgrows.clear_of_foldlM hfront
  · exact ⟨last, hlast, hdots.1, hdots.2, hshort⟩
  · exact hslash

theorem Room.of_grows (h : Room disk path) (hgrows : Disk.Grows disk later)
    (hclear : later.Clear (disk.startOf path) (Path.names path).dropLast) : Room later path where
  begins := by rw [hgrows.begin, hgrows.startOf]; exact h.begins
  clear := by rw [hgrows.startOf]; exact hclear
  last := h.last
  no_slash := h.no_slash

/-- Where there is room, writing a new file does not fail. -/
theorem Room.run_writeNewFile {root : String} (h : Room disk (Path.join root path))
    (text : String) : ∃ (outcome : WriteOutcome) (later : Disk),
      (writeNewFile root path text).run.run disk = (.ok outcome, later) := by
  obtain ⟨mid, hmade, hfront⟩ := h.run_makeParent
  have hgrows := Job.grows_run disk (makeParent (Path.join root path)).run
  have hclear := (makesOnly_makeParent (Path.join root path)).clear h.clear
  rw [hmade] at hgrows hclear
  have hcreate := (h.of_grows hgrows hclear).create text.toUTF8 hfront
  rw [Project.run_writeNewFile, hmade]
  simp only
  rcases hcreate with ⟨later, hwritten⟩ | htaken
  · rw [hwritten]
    exact ⟨.written, later, rfl⟩
  · rw [htaken]
    exact ⟨.alreadyThere, mid, rfl⟩

/-- Writing a new file leaves room where the way does not go through its place. -/
theorem Room.of_writeNewFile {root relative text : String} {outcome : WriteOutcome}
    (h : Room disk path)
    (hwrite : (writeNewFile root relative text).run.run disk = (.ok outcome, later))
    (haside : ∀ before : List String, before <+: (Path.names path).dropLast →
      follow (disk.startOf path) before
        ≠ follow (disk.startOf (Path.join root relative)) (Path.names (Path.join root relative))) :
    Room later path := by
  have hgrows := Job.grows_run disk (writeNewFile root relative text).run
  -- all new files are the one that is written
  have hfiles : ∀ (place : Location) (content : ByteArray),
      Disk.entry? ((writeNewFile root relative text).run.run disk).2 place = some (.file content) →
      disk.entry? place = some (.file content)
        ∨ place = follow (disk.startOf (Path.join root relative))
            (Path.names (Path.join root relative)) := by
    intro place content hfile
    rcases Job.written_of_appears hfile with hthere | ⟨write, hmem, hholds⟩
    · exact Or.inl hthere
    · obtain ⟨-, rfl⟩ := of_mem_writes hmem
      refine Or.inr ?_
      rw [hholds.1.eq_follow, hgrows.startOf]
  rw [hwrite] at hgrows hfiles
  refine h.of_grows hgrows (h.clear.of_files fun before hbefore content hfile => ?_)
  rcases hfiles _ _ hfile with hthere | hplace
  · exact hthere
  · exact absurd hplace (haside before hbefore)

end Stencil.Project
