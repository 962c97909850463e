import Mathlib.Data.List.Induction
import Stencil.Proofs.Files.Directories
import Stencil.Proofs.Ordered

/-! # Disks are trees

    On a tree every entry stands in a directory, and so does whoever works on it
    (`Disk.IsTree`).  The empty disk is a tree, and so is what any run leaves of one
    (`Job.isTree_run`).

    On a tree the way to an entry is there: names that are no dots lead to a place
    below a directory as soon as anything stands there (`IsTree.foldlM_down`).  So
    what is found on a later disk, and stood there already, was found already
    (`IsTree.find_of_later`). -/

namespace Stencil.Files

namespace Disk

/-- Whether every entry of a disk stands in a directory, and the working directory is
    there. -/
structure IsTree (disk : Disk) : Prop where
  here : disk.entry? disk.here = some .directory
  parents : ∀ (parent : Location) (name : String) (entry : Entry),
    disk.entry? (parent ++ [name]) = some entry → disk.entry? parent = some .directory

variable {disk later : Disk} {path : String} {place : Location} {entry : Entry}

/-! ## What is a tree -/

theorem isTree_empty : IsTree Disk.empty where
  here := rfl
  parents := by
    intro parent name entry hentry
    unfold entry? at hentry
    rw [if_neg (List.append_ne_nil_of_right_ne_nil _ (List.cons_ne_nil _ _))] at hentry
    cases hentry

/-- A disk is a tree if each of its finitely many entries stands in a directory. -/
theorem isTree_iff : disk.IsTree ↔ disk.entry? disk.here = some .directory
    ∧ ∀ pair ∈ disk.entries.toList, disk.entry? pair.1.dropLast = some .directory := by
  constructor
  · intro h
    refine ⟨h.here, fun pair hpair => ?_⟩
    rcases List.eq_nil_or_concat pair.1 with hroot | ⟨parent, name, hplace⟩
    · rw [hroot]
      rfl
    · have hne : pair.1 ≠ [] := by
        rw [hplace, List.concat_eq_append]
        exact List.append_ne_nil_of_right_ne_nil _ (List.cons_ne_nil _ _)
      have hentry : disk.entry? pair.1 = some pair.2 := by
        unfold entry?
        rw [if_neg hne]
        exact Ordered.get?_of_mem hpair
      rw [hplace, List.concat_eq_append] at hentry ⊢
      rw [List.dropLast_concat]
      exact h.parents parent name pair.2 hentry
  · rintro ⟨hhere, hentries⟩
    refine ⟨hhere, fun parent name entry hentry => ?_⟩
    unfold entry? at hentry
    rw [if_neg (List.append_ne_nil_of_right_ne_nil _ (List.cons_ne_nil _ _))] at hentry
    have hparent := hentries _ (Ordered.mem_of_get? hentry)
    rw [List.dropLast_concat] at hparent
    exact hparent

instance : Decidable disk.IsTree := decidable_of_iff _ isTree_iff.symm

/-- All that an entry lies below are directories. -/
theorem IsTree.above (h : disk.IsTree) {more : Location} (hne : more ≠ [])
    (hentry : disk.entry? (place ++ more) = some entry) : disk.entry? place = some .directory := by
  induction more using List.reverseRecOn generalizing entry with
  | nil => exact absurd rfl hne
  | append_singleton front name ih =>
      rw [← List.append_assoc] at hentry
      have hparent := h.parents _ name entry hentry
      by_cases hfront : front = []
      · rw [hfront, List.append_nil] at hparent
        exact hparent
      · exact ih hfront hparent

theorem IsTree.startOf (h : disk.IsTree) (path : String) :
    disk.entry? (disk.startOf path) = some .directory := by
  rw [Disk.startOf]
  by_cases habsolute : Path.isAbsolute path = true
  · rw [if_pos habsolute]
    rfl
  · rw [if_neg habsolute]
    exact h.here

/-- From a directory names lead to directories only. -/
theorem IsTree.directory_of_enter (h : disk.IsTree) {name : String} {place' : Location}
    (hplace : disk.entry? place = some .directory) (henter : disk.enter place name = .ok place') :
    disk.entry? place' = some .directory := by
  obtain ⟨rfl, hway⟩ := enter_eq_ok_iff.mp henter
  rw [walk]
  by_cases hdot : name = "."
  · rw [if_pos hdot]
    exact hplace
  by_cases hup : name = ".."
  · rw [if_neg hdot, if_pos hup]
    rcases List.eq_nil_or_concat place with rfl | ⟨front, last, rfl⟩
    · exact hplace
    · rw [List.concat_eq_append] at hplace ⊢
      rw [List.dropLast_concat]
      exact h.parents front last _ hplace
  rw [if_neg hdot, if_neg hup]
  rw [or_iff_right hdot, or_iff_right hup] at hway
  exact hway.2

theorem IsTree.directory_of_foldlM (h : disk.IsTree) {names : List String} {place' : Location}
    (hplace : disk.entry? place = some .directory)
    (hnames : names.foldlM disk.enter place = .ok place') :
    disk.entry? place' = some .directory := by
  induction names generalizing place with
  | nil => exact Except.ok.inj hnames ▸ hplace
  | cons name names ih =>
      rw [List.foldlM_cons] at hnames
      obtain ⟨next, hname, hrest⟩ := eq_ok_of_bind hnames
      exact ih (h.directory_of_enter hplace hname) hrest

/-- A path leads into a directory. -/
theorem IsTree.directory_of_leads (h : disk.IsTree) {parent : Location} {last : String}
    (hleads : disk.Leads path (parent ++ [last])) : disk.entry? parent = some .directory := by
  obtain ⟨parent', last', htarget, -, hplace⟩ := hleads
  obtain ⟨rfl, -⟩ := List.append_inj' hplace rfl
  rw [target] at htarget
  obtain ⟨start, hstart, htarget⟩ := eq_ok_of_bind htarget
  cases hlast : (Path.names path).getLast? with
  | none => simp only [hlast] at htarget; cases htarget
  | some name =>
      simp only [hlast] at htarget
      obtain ⟨place, hplace, htarget⟩ := eq_ok_of_bind htarget
      by_cases hdots : (name = "." || name = "..") = true
      · rw [if_pos hdots] at htarget
        obtain ⟨up, -, htarget⟩ := eq_ok_of_bind htarget
        cases htarget
      · rw [if_neg hdots] at htarget
        cases htarget
        exact h.directory_of_foldlM (eq_startOf_of_begin hstart ▸ h.startOf path) hplace

/-- An entry that is put where a path leads, and nothing stands, keeps a disk a tree. -/
theorem IsTree.put (h : disk.IsTree) (hleads : disk.Leads path place)
    (hfree : disk.entry? place = none) (entry : Entry) : IsTree (disk.put place entry) where
  here := (grows_put hfree entry).entries _ _ h.here
  parents := by
    intro parent name found hfound
    have hgrows := grows_put hfree entry
    rcases eq_of_entry?_put hfound with hthere | ⟨rfl, -⟩
    · exact hgrows.entries _ _ (h.parents parent name found hthere)
    · exact hgrows.entries _ _ (h.directory_of_leads hleads)

end Disk

theorem Job.isTree_settle {disk : Disk} {answer : Except Refusal Disk} (h : disk.IsTree)
    (hok : ∀ later : Disk, answer = .ok later → later.IsTree) :
    (settle disk answer).2.IsTree := by
  cases answer with
  | ok later => exact hok later rfl
  | error reason => exact h

/-- Runs leave trees of trees. -/
theorem Job.isTree_run {α : Type} {disk : Disk} (h : disk.IsTree) (job : Job α) :
    (job.run disk).2.IsTree := by
  induction job generalizing disk with
  | done result => exact h
  | look path next ih => exact ih _ h
  | read path next ih => exact ih _ h
  | makeDirectory path next ih =>
      refine ih _ (isTree_settle h fun later hmake => ?_)
      obtain ⟨place, hleads, hfree, rfl⟩ := Disk.of_makeDirectory hmake
      exact h.put hleads hfree _
  | create path text next ih =>
      refine ih _ (isTree_settle h fun later hcreate => ?_)
      obtain ⟨place, hleads, hfree, -, rfl⟩ := Disk.of_create hcreate
      exact h.put hleads hfree _
  | here next ih => exact ih _ h

namespace Disk

variable {disk later : Disk} {path : String} {place : Location} {entry : Entry}

/-! ## Finding on a tree -/

/-- A directory is found at the end of directories only. -/
theorem reaches_of_find (h : disk.find path = .ok .directory) : disk.Reaches path := by
  rcases List.eq_nil_or_concat (Path.names path) with hnil | ⟨front, last, hnames⟩
  · rw [Reaches, hnil]
    rfl
  rw [List.concat_eq_append] at hnames
  obtain ⟨parent, hfront⟩ := foldlM_of_find hnames h
  have hparent := eq_follow_of_foldlM hfront
  subst hparent
  refine reaches_of_enter hnames hfront ?_
  by_cases hdots : (last = "." || last = "..") = true
  · have hdots' : last = "." ∨ last = ".." := by simpa using hdots
    exact enter_eq_ok_iff.mpr ⟨rfl, hdots'.imp_right Or.inl⟩
  -- otherwise the last name is that of the directory
  have hlast : (Path.names path).getLast? = some last := by
    rw [hnames, List.getLast?_concat]
  have hdots' := Path.neither_dots_iff.mp hdots
  obtain ⟨parent, hleads, hentry⟩ := leads_of_find hlast hdots' h
  rw [hleads.eq_follow, hnames, follow_append,
    follow_of_no_dots (fun name hname => List.mem_singleton.mp hname ▸ hdots')] at hentry
  obtain ⟨_, _, -, hshort, hplace⟩ := hleads
  obtain ⟨-, hlast'⟩ := List.append_inj' hplace rfl
  obtain rfl := List.singleton_inj.mp hlast'
  exact (enter_eq_walk_iff hdots).mpr ⟨hshort, hentry⟩

/-- On the way to what is found there are directories. -/
theorem IsTree.directory_before (h : disk.IsTree) (hfind : disk.find path = .ok entry)
    {before after : List String} (hnames : Path.names path = before ++ after) (hne : after ≠ []) :
    disk.entry? (follow (disk.startOf path) before) = some .directory := by
  rcases List.eq_nil_or_concat after with hnil | ⟨front, last, hafter⟩
  · exact absurd hnil hne
  rw [hafter, List.concat_eq_append, ← List.append_assoc] at hnames
  obtain ⟨place, hfront⟩ := foldlM_of_find hnames hfind
  rw [List.foldlM_append] at hfront
  obtain ⟨mid, hbefore, -⟩ := eq_ok_of_bind hfront
  rw [← eq_follow_of_foldlM hbefore]
  exact h.directory_of_foldlM (h.startOf path) hbefore

/-- Names that lead down on a later disk lead down as far as anything stands there. -/
theorem IsTree.foldlM_down (h : disk.IsTree) {names : List String} {more : Location}
    (hdots : ∀ name ∈ names, name ≠ "." ∧ name ≠ "..") (hmore : more ≠ [])
    (hentry : disk.entry? (place ++ names ++ more) = some entry) {place' : Location}
    (hlater : names.foldlM later.enter place = .ok place') :
    names.foldlM disk.enter place = .ok (place ++ names) := by
  induction names generalizing place with
  | nil =>
      rw [List.append_nil]
      rfl
  | cons name names ih =>
      obtain ⟨hdot, hup⟩ := hdots name (List.mem_cons_self ..)
      rw [List.foldlM_cons] at hlater ⊢
      obtain ⟨next, hname, hrest⟩ := eq_ok_of_bind hlater
      obtain ⟨rfl, hway⟩ := enter_eq_ok_iff.mp hname
      rw [or_iff_right hdot, or_iff_right hup] at hway
      have hwalk : walk place name = place ++ [name] := by
        rw [walk, if_neg hdot, if_neg hup]
      have hsplit : place ++ name :: names = place ++ [name] ++ names := by
        rw [List.append_assoc]
        rfl
      rw [hwalk] at hrest
      rw [hsplit] at hentry
      have hdirectory : disk.entry? (place ++ [name]) = some .directory := by
        rw [List.append_assoc] at hentry
        exact h.above (List.append_ne_nil_of_right_ne_nil _ hmore) hentry
      have henter : disk.enter place name = .ok (place ++ [name]) :=
        enter_eq_ok_iff.mpr ⟨hwalk.symm, Or.inr (Or.inr ⟨hway.1, hdirectory⟩)⟩
      rw [henter, hsplit]
      exact ih (fun other hother => hdots other (List.mem_cons_of_mem _ hother)) hentry hrest

/-- What is found on a later disk, below a directory that was there, was found if it
    stood there. -/
theorem IsTree.find_of_later (h : disk.IsTree) (hhere : later.here = disk.here)
    {above below : List String} {last : String}
    (hnames : Path.names path = above ++ (below ++ [last]))
    (habove : above.foldlM disk.enter (disk.startOf path)
      = .ok (follow (disk.startOf path) above))
    (hdots : ∀ name ∈ below ++ [last], name ≠ "." ∧ name ≠ "..")
    (hfind : later.find path = .ok entry)
    (hthere : disk.entry? (follow (disk.startOf path) (Path.names path)) = some entry) :
    disk.find path = .ok entry := by
  have hstart : later.startOf path = disk.startOf path := by
    rw [Disk.startOf, Disk.startOf, hhere]
  have hbegins : later.begin path = disk.begin path := by
    rw [Disk.begin, Disk.begin, hhere]
  have hlastdots := hdots last (List.mem_append_right _ (List.mem_singleton.mpr rfl))
  have hlast : (Path.names path).getLast? = some last := by
    rw [hnames, ← List.append_assoc, List.getLast?_concat]
  obtain ⟨parent, hleads, -⟩ := leads_of_find hlast hlastdots hfind
  obtain ⟨parent', last', htarget, hshort, hplace⟩ := hleads
  obtain ⟨rfl, hlast'⟩ := List.append_inj' hplace rfl
  obtain rfl := List.singleton_inj.mp hlast'
  -- the path begins on both disks
  have hbegin := htarget
  rw [target] at hbegin
  obtain ⟨start, hbegin, -⟩ := eq_ok_of_bind hbegin
  obtain rfl := eq_startOf_of_begin hbegin
  rw [hbegins, hstart] at hbegin
  -- the names below were gone through later, so they are short, and lead down
  have hbelow : ∃ place' : Location,
      below.foldlM later.enter (follow (disk.startOf path) above) = .ok place' := by
    rw [← List.append_assoc] at hnames
    obtain ⟨place, hfront⟩ := foldlM_of_find hnames hfind
    rw [List.foldlM_append] at hfront
    obtain ⟨mid, hmid, hrest⟩ := eq_ok_of_bind hfront
    rw [eq_follow_of_foldlM hmid, hstart] at hrest
    exact ⟨place, hrest⟩
  obtain ⟨place', hbelow⟩ := hbelow
  have hfollow : follow (disk.startOf path) (Path.names path)
      = follow (disk.startOf path) above ++ below ++ [last] := by
    rw [hnames, follow_append, follow_of_no_dots hdots, List.append_assoc]
  rw [hfollow] at hthere
  have hdown := h.foldlM_down (fun name hname => hdots name (List.mem_append_left _ hname))
    (List.cons_ne_nil _ _) hthere hbelow
  have hleads : disk.Leads path (follow (disk.startOf path) above ++ below ++ [last]) := by
    refine ⟨_, last, ?_, hshort, rfl⟩
    rw [← List.append_assoc] at hnames
    rw [target_of_names hbegin hnames, List.foldlM_append, habove, ok_bind, hdown, ok_bind,
      if_neg (Path.neither_dots_iff.mpr hlastdots)]
  rw [hleads.find, hthere]
  cases entry with
  | directory => rfl
  | file content =>
      -- a slash at the end would not have let the file be found later
      refine if_neg fun hslash => ?_
      rw [find, htarget, ok_bind, findAt] at hfind
      simp only [hshort, hslash] at hfind
      cases hlater : later.entry? (parent ++ [last]) with
      | none => simp only [hlater] at hfind; cases hfind
      | some found =>
          simp only [hlater] at hfind
          cases found with
          | directory => cases hfind
          | file content => cases hfind

end Disk

end Stencil.Files
