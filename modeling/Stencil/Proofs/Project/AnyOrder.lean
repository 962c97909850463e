import Mathlib.Data.List.Infix
import Stencil.Proofs.Project.Inside
import Stencil.Proofs.Project.LayOut

/-! # Laying out in any order

    What becomes of a file that is laid out can be told from the disk at the start
    (`Item.fate`): it is skipped if its place is taken, by an entry or by a directory on
    the way to the root; otherwise it is written.  None of this depends on the files
    that are laid out before it, as long as no path goes through the place of another
    file (`Apart`).

    So files that can be laid out in one order can be laid out in any other, with the
    same results and the same disk in the end (`layOut_of_perm`).  The idea is that the
    disk at the end of the first order bounds the second: what is found there can be
    made, and whatever is made stands there already (`layOut_of_settles`).  All that can
    be in the way is the very first file.  Before a directory of the root is made, a file
    that is there is not found, and so its template is read. -/

namespace Stencil

namespace Files.Disk

/-- Whether two disks have the same entries and the same working directory. -/
structure Same (disk later : Disk) : Prop where
  here : later.here = disk.here
  entries : ∀ place : Location, later.entry? place = disk.entry? place

/-- Disks that have all that the other has are the same. -/
theorem Grows.same {disk later : Disk} (h : Grows disk later) (h' : Grows later disk) :
    Same disk later where
  here := h.here
  entries := by
    intro place
    cases hentry : disk.entry? place with
    | none => exact h'.free hentry
    | some entry => exact h.entries place entry hentry

end Files.Disk

namespace Project

open Files (Disk Entry Job Location follow follow_append follow_of_no_dots)

variable {disk mid later final : Disk} {root : String}

/-! ## Paths of files -/

/-- Whether a path leads down to a file, from wherever it is seen. -/
structure LeadsDown (path : String) : Prop where
  relative : Path.isAbsolute path = false
  no_dots : ∀ name ∈ Path.names path, name ≠ "." ∧ name ≠ ".."
  last : ∃ last : String, (Path.names path).getLast? = some last
  no_slash : Path.endsInSlash path = false

/-- Whether neither of two paths goes through the file of the other. -/
def Apart (path path' : String) : Prop :=
  ¬ Path.names path <+: Path.names path' ∧ ¬ Path.names path' <+: Path.names path

theorem Apart.symm {path path' : String} (h : Apart path path') : Apart path' path :=
  ⟨h.2, h.1⟩

/-- The place of a file below a root. -/
def filePlace (disk : Disk) (root path : String) : Location :=
  rootPlace disk root ++ Path.names path

theorem filePlace_of_grows (h : disk.Grows later) (path : String) :
    filePlace later root path = filePlace disk root path := by
  rw [filePlace, filePlace, rootPlace, rootPlace, h.startOf]

section Paths

variable {path : String} {entry : Entry}

theorem LeadsDown.names_join (h : LeadsDown path) (root : String) :
    Path.names (Path.join root path) = Path.names root ++ Path.names path :=
  Path.names_join root h.relative

theorem LeadsDown.startOf (h : LeadsDown path) (disk : Disk) (root : String) :
    disk.startOf (Path.join root path) = disk.startOf root := by
  rw [Disk.startOf, Disk.startOf, Path.isAbsolute_join root h.relative]

theorem LeadsDown.follow_join (h : LeadsDown path) (disk : Disk) (root : String) :
    follow (disk.startOf (Path.join root path)) (Path.names (Path.join root path))
      = filePlace disk root path := by
  rw [h.startOf, h.names_join, follow_append, follow_of_no_dots h.no_dots]
  rfl

theorem LeadsDown.getLast? (h : LeadsDown path) (root : String) : ∃ last : String,
    (Path.names (Path.join root path)).getLast? = some last ∧ last ≠ "." ∧ last ≠ ".." := by
  obtain ⟨last, hlast⟩ := h.last
  exact ⟨last, Path.getLast?_names_join root hlast, h.no_dots last (List.mem_of_getLast? hlast)⟩

theorem LeadsDown.ne_nil (h : LeadsDown path) : Path.names path ≠ [] := by
  obtain ⟨last, hlast⟩ := h.last
  intro hnil
  rw [hnil] at hlast
  cases hlast

theorem LeadsDown.endsInSlash (h : LeadsDown path) (root : String) :
    Path.endsInSlash (Path.join root path) = false := by
  have hne : path ≠ "" := by
    rintro rfl
    exact h.ne_nil rfl
  rw [Path.endsInSlash_join root hne h.relative, h.no_slash]

/-- What is found below a root stands at its place. -/
theorem LeadsDown.entry?_of_find (h : LeadsDown path)
    (hfind : disk.find (Path.join root path) = .ok entry) :
    disk.entry? (filePlace disk root path) = some entry := by
  obtain ⟨last, hlast, hdots⟩ := h.getLast? root
  rw [← h.follow_join]
  exact Disk.entry?_of_find hlast hdots hfind

/-- Where something is found below a root, the root is reached. -/
theorem LeadsDown.reaches_of_find (h : LeadsDown path)
    (hfind : disk.find (Path.join root path) = .ok entry) : disk.Reaches root := by
  obtain ⟨last, hlast⟩ := h.last
  obtain ⟨front, hnames⟩ := List.getLast?_eq_some_iff.mp hlast
  have hfull := h.names_join root
  rw [hnames, ← List.append_assoc] at hfull
  obtain ⟨place, hfront⟩ := Disk.foldlM_of_find hfull hfind
  rw [List.foldlM_append, h.startOf] at hfront
  obtain ⟨place', hroot, -⟩ := Disk.eq_ok_of_bind hfront
  rw [Disk.Reaches, hroot, Disk.eq_follow_of_foldlM hroot]

/-- A directory on the way to a file is on the way to the root, or below the root and
    above the file. -/
theorem LeadsDown.way (h : LeadsDown path) {way : String}
    (hway : way ∈ waysTo (Path.join root path)) :
    OnWayToRoot disk root (follow (disk.startOf way) (Path.names way))
      ∨ ∃ front back : List String, Path.names path = front ++ back ∧ back ≠ []
          ∧ follow (disk.startOf way) (Path.names way) = rootPlace disk root ++ front := by
  obtain ⟨hstart, more, hmore, hne⟩ := names_of_mem_waysTo hway
  have hbegin : disk.startOf way = disk.startOf root := by
    rw [Disk.startOf, hstart, ← h.startOf]
    rfl
  rw [h.names_join] at hmore
  rw [hbegin]
  rcases List.append_eq_append_iff.mp hmore with ⟨rest, hroot, -⟩ | ⟨front, hfront, hback⟩
  · exact Or.inl ⟨Path.names way, rest, hroot, rfl⟩
  · refine Or.inr ⟨front, more, hback, hne (h.endsInSlash root), ?_⟩
    have hdots : ∀ name ∈ front, name ≠ "." ∧ name ≠ ".." := fun name hname =>
      h.no_dots name (hback ▸ List.mem_append_left _ hname)
    rw [hfront, follow_append, follow_of_no_dots hdots]
    rfl

/-- Where something is found below a root, there is a directory wherever a way to it
    leads. -/
theorem LeadsDown.directory_of_way (h : LeadsDown path) (htree : disk.IsTree)
    (hfind : disk.find (Path.join root path) = .ok entry) {way : String}
    (hway : way ∈ waysTo (Path.join root path)) :
    disk.entry? (follow (disk.startOf way) (Path.names way)) = some .directory := by
  obtain ⟨hstart, more, hmore, hne⟩ := names_of_mem_waysTo hway
  have hbegin : disk.startOf way = disk.startOf (Path.join root path) := by
    rw [Disk.startOf, hstart]
    rfl
  rw [hbegin]
  exact htree.directory_before hfind hmore.symm (hne (h.endsInSlash root))

end Paths

/-! ## Taken places -/

/-- A root that is reached has directories on its way. -/
theorem directory_of_onWayToRoot (htree : disk.IsTree) (hreaches : disk.Reaches root)
    {place : Location} (h : OnWayToRoot disk root place) :
    disk.entry? place = some .directory := by
  obtain ⟨before, after, hnames, rfl⟩ := h
  rw [Disk.Reaches, hnames, List.foldlM_append] at hreaches
  obtain ⟨place, hbefore, -⟩ := Disk.eq_ok_of_bind hreaches
  rw [← Disk.eq_follow_of_foldlM hbefore]
  exact htree.directory_of_foldlM (htree.startOf root) hbefore

theorem onWayToRoot_iff {place : Location} : OnWayToRoot disk root place
    ↔ ∃ before ∈ (Path.names root).inits, place = follow (disk.startOf root) before := by
  constructor
  · rintro ⟨before, after, hnames, hplace⟩
    exact ⟨before, (List.mem_inits _ _).mpr ⟨after, hnames.symm⟩, hplace⟩
  · rintro ⟨before, hbefore, hplace⟩
    obtain ⟨after, hnames⟩ := (List.mem_inits _ _).mp hbefore
    exact ⟨before, after, hnames.symm, hplace⟩

theorem onWayToRoot_of_grows (hgrows : disk.Grows later) {place : Location}
    (h : OnWayToRoot disk root place) : OnWayToRoot later root place := by
  obtain ⟨before, after, hnames, hplace⟩ := h
  exact ⟨before, after, hnames, by rw [hgrows.startOf, hplace]⟩

instance (place : Location) : Decidable (OnWayToRoot disk root place) :=
  decidable_of_iff _ onWayToRoot_iff.symm

/-- Whether the place of a file is taken: something stands there, or the way to the root
    goes through it. -/
def Taken (disk : Disk) (root path : String) : Prop :=
  disk.entry? (filePlace disk root path) ≠ none
    ∨ OnWayToRoot disk root (filePlace disk root path)

instance (path : String) : Decidable (Taken disk root path) :=
  inferInstanceAs (Decidable (_ ∨ _))

/-- Whether a later disk has something at the place of a file only if that was taken
    before. -/
def Unspoilt (disk : Disk) (root : String) (later : Disk) (path : String) : Prop :=
  later.entry? (filePlace disk root path) ≠ none → Taken disk root path

theorem unspoilt_self (disk : Disk) (root path : String) : Unspoilt disk root disk path :=
  Or.inl

/-- A taken place is occupied once the root is reached. -/
theorem entry?_of_taken (hgrows : disk.Grows later) (htree : later.IsTree)
    (hreaches : later.Reaches root) {path : String} (h : Taken disk root path) :
    ∃ entry : Entry, later.entry? (filePlace disk root path) = some entry := by
  rcases h with hentry | hway
  · obtain ⟨entry, hentry⟩ := Option.ne_none_iff_exists'.mp hentry
    exact ⟨entry, hgrows.entries _ _ hentry⟩
  · exact ⟨.directory,
      directory_of_onWayToRoot htree hreaches (onWayToRoot_of_grows hgrows hway)⟩

/-- Making the directories on the way to a file spoils no place that the path of the file
    does not go through. -/
theorem Unspoilt.makeParent {path path' : String} (h : Unspoilt disk root later path)
    (hgrows : disk.Grows later) (hdown : LeadsDown path')
    (hthrough : ∀ back : List String, Path.names path' = Path.names path ++ back → back = []) :
    Unspoilt disk root ((makeParent (Path.join root path')).run.run later).2 path := by
  intro hoccupied
  obtain ⟨entry, hentry⟩ := Option.ne_none_iff_exists'.mp hoccupied
  rcases (makesOnly_makeParent (Path.join root path')).addsWaysTo later _ entry hentry with
    hthere | ⟨way, hway, hplace⟩
  · refine h ?_
    rw [hthere]
    exact Option.some_ne_none _
  · rw [hgrows.startOf] at hplace
    rcases hdown.way hway with hroot | ⟨front, back, hnames, hne, hfollow⟩
    · exact Or.inr (hplace ▸ hroot)
    · -- the way would go through the place
      rw [hfollow, filePlace] at hplace
      rw [← List.append_cancel_left hplace] at hnames
      exact absurd (hthrough back hnames) hne

/-! ## What becomes of a file -/

/-- What becomes of a file: it is skipped if its place is taken, and otherwise its text is
    written. -/
def Item.fate (disk : Disk) (root : String) (item : Item) : Option String :=
  if Taken disk root item.path then none else item.text.toOption

/-- Whether a file has been dealt with: something is found at its path, it has its text if
    it was to be written, and its template could be loaded if need be. -/
structure Settles (disk : Disk) (root : String) (item : Item) (later : Disk) : Prop where
  found : ∃ entry : Entry, later.find (Path.join root item.path) = .ok entry
  text : ∀ text : String, item.fate disk root = some text →
    later.entry? (filePlace disk root item.path) = some (.file text.toUTF8)
  loads : (∃ text : String, item.text = .ok text)
    ∨ item.asks = true ∧ Taken disk root item.path

theorem Settles.of_grows {item : Item} (h : Settles disk root item later)
    (hgrows : later.Grows final) : Settles disk root item final where
  found := by
    obtain ⟨entry, hfind⟩ := h.found
    exact ⟨entry, hgrows.find hfind⟩
  text := fun text htext => hgrows.entries _ _ (h.text text htext)
  loads := h.loads

section Written

variable {path text : String}

/-- Writing a new file: it is found afterwards; it is written with its text if its place was
    free, and skipped if that was taken. -/
theorem written_of_unspoilt (hgrows : disk.Grows later) (htree : later.IsTree)
    (hdown : LeadsDown path) (hunspoilt : Unspoilt disk root later path) {outcome : WriteOutcome}
    (h : (writeNewFile root path text).run.run later = (.ok outcome, final)) :
    (∃ entry : Entry, final.find (Path.join root path) = .ok entry)
      ∧ (outcome = .alreadyThere ∧ Taken disk root path
        ∨ outcome = .written ∧ ¬ Taken disk root path
          ∧ final.entry? (filePlace disk root path) = some (.file text.toUTF8)) := by
  obtain ⟨mid, hmade, hcreate⟩ := mid_of_writeNewFile h
  have hmid := hunspoilt.makeParent hgrows hdown fun back hback => by simpa using hback
  have hgrows' := hgrows.trans (Job.grows_run later (makeParent (Path.join root path)).run)
  have htree' := Job.isTree_run htree (makeParent (Path.join root path)).run
  rw [hmade] at hmid hgrows' htree'
  rcases hcreate with ⟨hcreated, rfl⟩ | ⟨hrefused, rfl, rfl⟩
  · obtain ⟨-, hfind, -⟩ := Disk.find_of_create hcreated
    obtain ⟨place, hfree, hholds, -⟩ := Disk.holds_of_create hcreated
    have hlast := hgrows'.trans (Disk.grows_create hcreated)
    have hplace : place = filePlace disk root path := by
      rw [hholds.1.eq_follow, hdown.follow_join, filePlace_of_grows hlast]
    subst hplace
    refine ⟨⟨_, hfind⟩, Or.inr ⟨rfl, fun htaken => ?_, hholds.2⟩⟩
    rcases htaken with hentry | hway
    · exact hentry (hgrows'.free hfree)
    · -- now that the root is reached, there would be a directory
      have htree'' := Job.isTree_run htree (writeNewFile root path text).run
      rw [h] at htree''
      have hdirectory := directory_of_onWayToRoot htree'' (hdown.reaches_of_find hfind)
        (onWayToRoot_of_grows hlast hway)
      rw [hholds.2] at hdirectory
      cases hdirectory
  · obtain ⟨entry, hfind⟩ := Disk.find_of_occupied hrefused
    refine ⟨⟨entry, hfind⟩, Or.inl ⟨rfl, hmid ?_⟩⟩
    have hentry := hdown.entry?_of_find hfind
    rw [filePlace_of_grows hgrows'] at hentry
    rw [hentry]
    exact Option.some_ne_none _

end Written

section One

variable {item : Item} {result : Option String}

/-- A file that is laid out has its fate, and has been dealt with. -/
theorem settles_of_layOne (hgrows : disk.Grows later) (htree : later.IsTree)
    (hdown : LeadsDown item.path) (hunspoilt : Unspoilt disk root later item.path)
    (h : layOne root item later = (.ok result, final)) :
    result = item.fate disk root ∧ Settles disk root item final := by
  rw [Item.fate]
  rcases of_layOne h with ⟨hasks, ⟨entry, hfind⟩, rfl, rfl⟩ | ⟨text, outcome, htext, hwrite, rfl⟩
  · -- what is found is at its place, so that was taken
    have hentry := hdown.entry?_of_find hfind
    rw [filePlace_of_grows hgrows] at hentry
    have htaken : Taken disk root item.path := by
      refine hunspoilt ?_
      rw [hentry]
      exact Option.some_ne_none _
    refine ⟨(if_pos htaken).symm, ⟨entry, hfind⟩, fun text htext => ?_, Or.inr ⟨hasks, htaken⟩⟩
    rw [Item.fate, if_pos htaken] at htext
    cases htext
  · obtain ⟨hfound, ⟨rfl, htaken⟩ | ⟨rfl, hfree, hentry⟩⟩ :=
      written_of_unspoilt hgrows htree hdown hunspoilt hwrite
    · refine ⟨(if_pos htaken).symm, hfound, fun text htext => ?_, Or.inl ⟨text, htext⟩⟩
      rw [Item.fate, if_pos htaken] at htext
      cases htext
    · have hfate : item.fate disk root = some text := by
        rw [Item.fate, if_neg hfree, htext]
        rfl
      refine ⟨hfate.symm, hfound, fun text' htext' => ?_, Or.inl ⟨text, htext⟩⟩
      rw [hfate] at htext'
      cases htext'
      exact hentry

/-- Laying out a file spoils the place of no file that is apart from it. -/
theorem Unspoilt.layOne {path : String} (h : Unspoilt disk root later path)
    (hgrows : disk.Grows later) (hdown : LeadsDown item.path) (hapart : Apart item.path path)
    (hone : Project.layOne root item later = (.ok result, final)) :
    Unspoilt disk root final path := by
  rcases of_layOne hone with ⟨-, -, -, rfl⟩ | ⟨text, outcome, -, hwrite, -⟩
  · exact h
  obtain ⟨mid, hmade, hcreate⟩ := mid_of_writeNewFile hwrite
  have hmid := h.makeParent hgrows hdown fun back hback =>
    absurd ⟨back, hback.symm⟩ hapart.2
  have hgrows' :=
    hgrows.trans (Job.grows_run later (Project.makeParent (Path.join root item.path)).run)
  rw [hmade] at hmid hgrows'
  rcases hcreate with ⟨hcreated, -⟩ | ⟨-, -, rfl⟩
  · obtain ⟨place, -, hholds, hother⟩ := Disk.holds_of_create hcreated
    have hplace : place = filePlace disk root item.path := by
      rw [hholds.1.eq_follow, hdown.follow_join,
        filePlace_of_grows (hgrows'.trans (Disk.grows_create hcreated))]
    intro hoccupied
    refine hmid ?_
    rw [← hother _ fun hsame => ?_]
    · exact hoccupied
    · -- the two files would have one path
      rw [hplace, filePlace, filePlace] at hsame
      exact hapart.1 ⟨[], by rw [List.append_nil, List.append_cancel_left hsame]⟩
  · exact hmid

end One

/-! ## All files -/

/-- Files that are laid out have their fates, and have been dealt with. -/
theorem settles_of_layOut (hgrows : disk.Grows later) (htree : later.IsTree) {items : List Item}
    (hdown : ∀ item ∈ items, LeadsDown item.path)
    (hapart : items.Pairwise fun item item' => Apart item.path item'.path)
    (hunspoilt : ∀ item ∈ items, Unspoilt disk root later item.path)
    {results : List (Option String)} (h : layOut root items later = (.ok results, final)) :
    results = items.map (Item.fate disk root) ∧ (∀ item ∈ items, Settles disk root item final)
      ∧ later.Grows final ∧ final.IsTree := by
  induction items generalizing later results with
  | nil =>
      cases h
      exact ⟨rfl, fun item hitem => (by cases hitem), Disk.Grows.refl _, htree⟩
  | cons item rest ih =>
      obtain ⟨result, mid, others, hone, hrest, rfl⟩ := layOut_cons_eq_ok_iff.mp h
      obtain ⟨hapart, hapart'⟩ := List.pairwise_cons.mp hapart
      have hitem : item ∈ item :: rest := List.mem_cons_self ..
      obtain ⟨rfl, hsettles⟩ := settles_of_layOne hgrows htree (hdown item hitem)
        (hunspoilt item hitem) hone
      have hmid := grows_layOne root item later
      have htree' := isTree_layOne htree root item
      rw [hone] at hmid htree'
      obtain ⟨rfl, hothers, hfinal, htree''⟩ := ih (hgrows.trans hmid) htree'
        (fun other hother => hdown other (List.mem_cons_of_mem _ hother)) hapart'
        (fun other hother => (hunspoilt other (List.mem_cons_of_mem _ hother)).layOne hgrows
          (hdown item hitem) (hapart other hother) hone) hrest
      refine ⟨rfl, fun other hother => ?_, hmid.trans hfinal, htree''⟩
      rcases List.mem_cons.mp hother with rfl | hother
      · exact hsettles.of_grows hfinal
      · exact hothers other hother

/-! ## Up to a bound -/

section Bound

variable {bound : Disk} {path : String} {item : Item}

/-- On a tree that reaches the root, a file that stands at its place is found if that is
    so later. -/
theorem LeadsDown.find_of_reaches (hdown : LeadsDown path) (htree : later.IsTree)
    (hbound : later.Grows bound) (hreaches : later.Reaches root) {entry entry' : Entry}
    (hfind : bound.find (Path.join root path) = .ok entry)
    (hentry : later.entry? (filePlace later root path) = some entry') :
    later.find (Path.join root path) = .ok entry := by
  obtain ⟨last, hlast⟩ := hdown.last
  obtain ⟨below, hbelow⟩ := List.getLast?_eq_some_iff.mp hlast
  have hnames := hdown.names_join root
  have hdots := hdown.no_dots
  rw [hbelow] at hnames hdots
  have hsame : entry' = entry := by
    have hlater := hbound.entries _ _ hentry
    rw [← filePlace_of_grows hbound, hdown.entry?_of_find hfind] at hlater
    exact (Option.some.inj hlater).symm
  refine htree.find_of_later hbound.here hnames ?_ hdots hfind ?_
  · rw [hdown.startOf]
    exact hreaches
  · rw [hdown.follow_join, hentry, hsame]

/-- Two trees that reach the root, grown from one disk, agree at a place that was taken on
    it. -/
theorem entry?_eq_of_taken (hgrows : disk.Grows later) (htree : later.IsTree)
    (hreaches : later.Reaches root) (hgrows' : disk.Grows bound) (htree' : bound.IsTree)
    (hreaches' : bound.Reaches root) (h : Taken disk root path) :
    bound.entry? (filePlace disk root path) = later.entry? (filePlace disk root path) := by
  rcases h with hentry | hway
  · obtain ⟨entry, hentry⟩ := Option.ne_none_iff_exists'.mp hentry
    rw [hgrows.entries _ _ hentry, hgrows'.entries _ _ hentry]
  · rw [directory_of_onWayToRoot htree hreaches (onWayToRoot_of_grows hgrows hway),
      directory_of_onWayToRoot htree' hreaches' (onWayToRoot_of_grows hgrows' hway)]

/-- What a file that has been dealt with adds stands on the bound already. -/
theorem grows_bound_of_writeNewFile (hgrows : disk.Grows later) (htree : later.IsTree)
    (hdown : LeadsDown item.path) (hbound : later.Grows bound) (htree' : bound.IsTree)
    (hsettles : Settles disk root item bound) (hmid : Settles disk root item mid) {text : String}
    (htext : item.text = .ok text) {outcome : WriteOutcome}
    (hwrite : (writeNewFile root item.path text).run.run later = (.ok outcome, mid)) :
    mid.Grows bound := by
  have hlater := Job.grows_run later (writeNewFile root item.path text).run
  have hmidtree := Job.isTree_run htree (writeNewFile root item.path text).run
  have hadds := (confined_writeNewFile (show ∀ way ∈ waysTo (Path.join root item.path),
    way ∈ waysTo (Path.join root item.path) from fun _ h => h)
    (rfl : Path.join root item.path = Path.join root item.path) text).addsAt later
  rw [hwrite] at hlater hmidtree hadds
  obtain ⟨found, hfind⟩ := hsettles.found
  obtain ⟨found', hfind'⟩ := hmid.found
  constructor
  · rw [hbound.here, hlater.here]
  intro place entry hentry
  rcases hadds place entry hentry with
    hthere | ⟨rfl, way, hway, hplace⟩ | ⟨path, rfl, hplace⟩
  · exact hbound.entries place entry hthere
  · -- directories on the way to what is found are there
    rw [hplace, ← hbound.startOf]
    exact hdown.directory_of_way htree' hfind hway
  · rw [hdown.follow_join, filePlace_of_grows hgrows] at hplace
    subst hplace
    by_cases htaken : Taken disk root item.path
    · rw [entry?_eq_of_taken (hgrows.trans hlater) hmidtree (hdown.reaches_of_find hfind')
        (hgrows.trans hbound) htree' (hdown.reaches_of_find hfind) htaken]
      exact hentry
    · have hfate : item.fate disk root = some text := by
        rw [Item.fate, if_neg htaken, htext]
        rfl
      rw [hsettles.text text hfate, ← hmid.text text hfate, hentry]

/-- A file that has been dealt with on a bound can be laid out below it; only if the root
    is not reached yet does its template have to be loaded in any case. -/
theorem layOne_of_settles (hgrows : disk.Grows later) (htree : later.IsTree)
    (hdown : LeadsDown item.path) (hunspoilt : Unspoilt disk root later item.path)
    (hbound : later.Grows bound) (htree' : bound.IsTree)
    (hsettles : Settles disk root item bound)
    (hstart : later.Reaches root ∨ (item.asks = true → ∃ text : String, item.text = .ok text)) :
    ∃ (result : Option String) (mid : Disk), layOne root item later = (.ok result, mid)
      ∧ mid.Grows bound ∧ mid.Reaches root := by
  obtain ⟨entry, hfind⟩ := hsettles.found
  by_cases hfound : item.asks = true
      ∧ (later.find (Path.join root item.path)).toOption.isSome = true
  · refine ⟨none, later, layOne_of_found hfound.1 hfound.2, hbound, ?_⟩
    cases hlater : later.find (Path.join root item.path) with
    | ok entry => exact hdown.reaches_of_find hlater
    | error reason =>
        have hsome := hfound.2
        rw [hlater] at hsome
        cases hsome
  -- the template can be loaded, for otherwise the file would be found
  have htext : ∃ text : String, item.text = .ok text := by
    rcases hsettles.loads with htext | ⟨hasks, htaken⟩
    · exact htext
    rcases hstart with hreaches | hloads
    · obtain ⟨entry', hentry⟩ := entry?_of_taken hgrows htree hreaches htaken
      rw [← filePlace_of_grows hgrows] at hentry
      refine absurd ⟨hasks, ?_⟩ hfound
      rw [hdown.find_of_reaches htree hbound hreaches hfind hentry]
      rfl
    · exact hloads hasks
  obtain ⟨text, htext⟩ := htext
  obtain ⟨last, hlast, hdots⟩ := hdown.getLast? root
  obtain ⟨outcome, mid, hwrite⟩ :=
    (room_of_find hbound hlast hdots (hdown.endsInSlash root) hfind).run_writeNewFile text
  obtain ⟨result, hone⟩ := layOne_of_write htext hwrite hfound
  have hmid := (settles_of_layOne hgrows htree hdown hunspoilt hone).2
  obtain ⟨entry', hfind'⟩ := hmid.found
  exact ⟨result, mid, hone, grows_bound_of_writeNewFile hgrows htree hdown hbound htree' hsettles
    hmid htext hwrite, hdown.reaches_of_find hfind'⟩

/-- **Progress.**  Files that have been dealt with on a bound can all be laid out below it,
    if the root is reached or the first template can be loaded. -/
theorem layOut_of_settles (hgrows : disk.Grows later) (htree : later.IsTree) {items : List Item}
    (hdown : ∀ item ∈ items, LeadsDown item.path)
    (hapart : items.Pairwise fun item item' => Apart item.path item'.path)
    (hunspoilt : ∀ item ∈ items, Unspoilt disk root later item.path)
    (hbound : later.Grows bound) (htree' : bound.IsTree)
    (hsettles : ∀ item ∈ items, Settles disk root item bound)
    (hstart : later.Reaches root ∨ ∀ item ∈ items.head?, item.asks = true →
      ∃ text : String, item.text = .ok text) :
    ∃ (results : List (Option String)) (final : Disk),
      layOut root items later = (.ok results, final) ∧ final.Grows bound := by
  induction items generalizing later with
  | nil => exact ⟨[], later, rfl, hbound⟩
  | cons item rest ih =>
      have hitem : item ∈ item :: rest := List.mem_cons_self ..
      have htail : ∀ {P : Item → Prop}, (∀ other ∈ item :: rest, P other) →
          ∀ other ∈ rest, P other := fun h other hother => h other (List.mem_cons_of_mem _ hother)
      obtain ⟨hapart, hapart'⟩ := List.pairwise_cons.mp hapart
      obtain ⟨result, mid, hone, hmidbound, hreaches⟩ := layOne_of_settles hgrows htree
        (hdown item hitem) (hunspoilt item hitem) hbound htree' (hsettles item hitem)
        (hstart.imp_right fun h => h item rfl)
      have hmid := grows_layOne root item later
      have hmidtree := isTree_layOne htree root item
      rw [hone] at hmid hmidtree
      obtain ⟨results, final, hrest, hfinal⟩ := ih (hgrows.trans hmid) hmidtree (htail hdown) hapart'
        (fun other hother => (htail hunspoilt other hother).layOne hgrows (hdown item hitem)
          (hapart other hother) hone) hmidbound (htail hsettles) (Or.inl hreaches)
      exact ⟨result :: results, final,
        layOut_cons_eq_ok_iff.mpr ⟨result, mid, results, hone, hrest, rfl⟩, hfinal⟩

end Bound

/-! ## Room for all files -/

/-- The way to a file does not go through the place of another that is apart from it, unless
    the way to the root does. -/
theorem LeadsDown.aside {path path' : String} (hdown : LeadsDown path) (hdown' : LeadsDown path')
    (hapart : Apart path path') (hroot : ¬ OnWayToRoot disk root (filePlace disk root path))
    {before : List String} (hbefore : before <+: (Path.names (Path.join root path')).dropLast) :
    follow (disk.startOf (Path.join root path')) before
      ≠ follow (disk.startOf (Path.join root path)) (Path.names (Path.join root path)) := by
  obtain ⟨more, hmore⟩ := hbefore
  obtain ⟨last, hlast, -⟩ := hdown'.getLast? root
  obtain ⟨front, hnames⟩ := List.getLast?_eq_some_iff.mp hlast
  rw [hnames, List.dropLast_concat] at hmore
  rw [← hmore, List.append_assoc, hdown'.names_join] at hnames
  rw [hdown.follow_join, hdown'.startOf]
  intro hplace
  rcases List.append_eq_append_iff.mp hnames with ⟨below, hbelow, hrest⟩ | ⟨rest, hrest, -⟩
  · -- it goes on below the root
    have hdots : ∀ name ∈ below, name ≠ "." ∧ name ≠ ".." := fun name hname =>
      hdown'.no_dots name (hrest ▸ List.mem_append_left _ hname)
    rw [hbelow, follow_append, follow_of_no_dots hdots] at hplace
    rw [List.append_cancel_left hplace] at hrest
    exact hapart.1 ⟨_, hrest.symm⟩
  · exact hroot ⟨before, rest, hrest, hplace.symm⟩

/-- Where there is room for a file whose text can be had, it can be laid out, and that
    leaves room aside. -/
theorem layOne_of_room {item : Item} (hroom : Room disk (Path.join root item.path))
    (htext : ∃ text : String, item.text = .ok text) :
    ∃ (result : Option String) (mid : Disk), layOne root item disk = (.ok result, mid)
      ∧ ∀ path : String, Room disk path →
          (∀ before : List String, before <+: (Path.names path).dropLast →
            follow (disk.startOf path) before ≠ follow (disk.startOf (Path.join root item.path))
              (Path.names (Path.join root item.path))) →
          Room mid path := by
  by_cases hfound : item.asks = true
      ∧ (disk.find (Path.join root item.path)).toOption.isSome = true
  · exact ⟨none, disk, layOne_of_found hfound.1 hfound.2, fun _ h _ => h⟩
  obtain ⟨text, htext⟩ := htext
  obtain ⟨outcome, mid, hwrite⟩ := hroom.run_writeNewFile text
  obtain ⟨result, hone⟩ := layOne_of_write htext hwrite hfound
  exact ⟨result, mid, hone, fun path h haside => h.of_writeNewFile hwrite haside⟩

/-- Files that are apart, whose texts can be had and for which there is room, can all be
    laid out, if the way to the root goes through none of their places. -/
theorem layOut_of_room {items : List Item} (hdown : ∀ item ∈ items, LeadsDown item.path)
    (hapart : items.Pairwise fun item item' => Apart item.path item'.path)
    (hroot : ∀ item ∈ items, ¬ OnWayToRoot disk root (filePlace disk root item.path))
    (htexts : ∀ item ∈ items, ∃ text : String, item.text = .ok text)
    (hroom : ∀ item ∈ items, Room disk (Path.join root item.path)) :
    ∃ (results : List (Option String)) (final : Disk),
      layOut root items disk = (.ok results, final) := by
  induction items generalizing disk with
  | nil => exact ⟨[], disk, rfl⟩
  | cons item rest ih =>
      have hitem : item ∈ item :: rest := List.mem_cons_self ..
      have htail : ∀ {P : Item → Prop}, (∀ other ∈ item :: rest, P other) →
          ∀ other ∈ rest, P other := fun h other hother => h other (List.mem_cons_of_mem _ hother)
      obtain ⟨hapart, hapart'⟩ := List.pairwise_cons.mp hapart
      obtain ⟨result, mid, hone, hkeeps⟩ := layOne_of_room (hroom item hitem) (htexts item hitem)
      have hgrows := grows_layOne root item disk
      rw [hone] at hgrows
      have hroot' : ∀ other ∈ rest, ¬ OnWayToRoot mid root (filePlace mid root other.path) := by
        rintro other hother ⟨before, after, hnames, hplace⟩
        rw [filePlace_of_grows hgrows, hgrows.startOf] at hplace
        exact htail hroot other hother ⟨before, after, hnames, hplace⟩
      obtain ⟨results, final, hrest⟩ := ih (htail hdown) hapart' hroot' (htail htexts)
        fun other hother => hkeeps _ (htail hroom other hother) fun before hbefore =>
          (hdown item hitem).aside (htail hdown other hother) (hapart other hother)
            (hroot item hitem) hbefore
      exact ⟨result :: results, final,
        layOut_cons_eq_ok_iff.mpr ⟨result, mid, results, hone, hrest, rfl⟩⟩

/-! ## Any order -/

/-- The first of some files that are laid out is found, so that the root is reached, or its
    template can be loaded. -/
theorem start_of_layOut {items : List Item} (hdown : ∀ item ∈ items, LeadsDown item.path)
    {results : List (Option String)} (h : layOut root items disk = (.ok results, final)) :
    disk.Reaches root ∨ ∀ item ∈ items.head?, item.asks = true →
      ∃ text : String, item.text = .ok text := by
  cases items with
  | nil => exact Or.inr fun item hitem => by cases hitem
  | cons item rest =>
      obtain ⟨result, mid, others, hone, -, -⟩ := layOut_cons_eq_ok_iff.mp h
      rcases of_layOne hone with ⟨-, ⟨entry, hfind⟩, -, -⟩ | ⟨text, -, htext, -, -⟩
      · exact Or.inl ((hdown item (List.mem_cons_self ..)).reaches_of_find hfind)
      · refine Or.inr fun other hother _ => ⟨text, ?_⟩
        obtain rfl := Option.some.inj hother
        exact htext

/-- **Any order.**  Files whose paths are apart, and that can be laid out in one order on a
    tree, can be laid out in any other, if the root is reached or the template of the file
    that then comes first can be loaded.  Each file has its fate, and the disk in the end
    is the same. -/
theorem layOut_of_perm (htree : disk.IsTree) {items items' : List Item}
    (hperm : items.Perm items') (hdown : ∀ item ∈ items, LeadsDown item.path)
    (hapart : items.Pairwise fun item item' => Apart item.path item'.path)
    (hstart : disk.Reaches root ∨ ∀ item ∈ items'.head?, item.asks = true →
      ∃ text : String, item.text = .ok text)
    {results : List (Option String)} (hrun : layOut root items disk = (.ok results, final)) :
    ∃ final' : Disk, layOut root items' disk = (.ok (items'.map (Item.fate disk root)), final')
      ∧ final.Same final' := by
  have hself := Disk.Grows.refl disk
  have hdown' : ∀ item ∈ items', LeadsDown item.path :=
    fun item hitem => hdown item (hperm.mem_iff.mpr hitem)
  have hapart' : items'.Pairwise fun item item' => Apart item.path item'.path :=
    (hperm.pairwise_iff fun h => h.symm).mp hapart
  obtain ⟨-, hsettles, hfinal, hfinaltree⟩ :=
    settles_of_layOut hself htree hdown hapart (fun item _ => unspoilt_self _ _ _) hrun
  obtain ⟨results', final', hrun', hbound⟩ := layOut_of_settles hself htree hdown' hapart'
    (fun item _ => unspoilt_self _ _ _) hfinal hfinaltree
    (fun item hitem => hsettles item (hperm.mem_iff.mpr hitem)) hstart
  obtain ⟨rfl, hsettles', hfinal', hfinaltree'⟩ :=
    settles_of_layOut hself htree hdown' hapart' (fun item _ => unspoilt_self _ _ _) hrun'
  -- the first order, run again, is bounded by the second
  obtain ⟨again, final'', hrun'', hbound'⟩ := layOut_of_settles hself htree hdown hapart
    (fun item _ => unspoilt_self _ _ _) hfinal' hfinaltree'
    (fun item hitem => hsettles' item (hperm.mem_iff.mp hitem)) (start_of_layOut hdown hrun)
  rw [hrun] at hrun''
  cases hrun''
  exact ⟨final', hrun', hbound'.same hbound⟩

end Project

end Stencil
