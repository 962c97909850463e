import Stencil.Proofs.Files.History
import Stencil.Proofs.Files.Location

/-! # Making directories

    Making a directory and the parents it lacks adds nothing but directories, where
    the names of these paths lead (`MakesOnly.addsWaysTo`).  It succeeds if no file
    stands in the way and no name is too long (`run_makeDirectories`). -/

namespace Stencil.Files

namespace Disk

/-! ## Clear ways -/

/-- Whether a name can be gone through, once there is a directory: it is not too
    long, and there is no file. -/
def Admits (disk : Disk) (place : Location) (name : String) : Prop :=
  name = "." ∨ name = ".." ∨ isLongName name = false
    ∧ (disk.entry? (place ++ [name])).map Entry.kind ≠ some .file

/-- Whether names can be gone through, one after the other. -/
def Clear (disk : Disk) : Location → List String → Prop
  | _, [] => True
  | place, name :: names => disk.Admits place name ∧ disk.Clear (walk place name) names

/-- Whether the directories on a path are all there. -/
def Reaches (disk : Disk) (path : String) : Prop :=
  (Path.names path).foldlM disk.enter (disk.startOf path)
    = .ok (follow (disk.startOf path) (Path.names path))

variable {disk later : Disk} {path : String} {place start : Location} {names : List String}

instance (name : String) : Decidable (disk.Admits place name) :=
  inferInstanceAs (Decidable (_ ∨ _ ∨ _ ∧ _))

instance decidableClear : ∀ (place : Location) (names : List String),
    Decidable (disk.Clear place names)
  | _, [] => isTrue trivial
  | place, name :: names =>
      have := decidableClear (walk place name) names
      inferInstanceAs (Decidable (_ ∧ _))

/-- Names in sequence are clear if the parts are. -/
theorem clear_append {names' : List String} :
    disk.Clear place (names ++ names')
      ↔ disk.Clear place names ∧ disk.Clear (follow place names) names' := by
  induction names generalizing place with
  | nil => exact ⟨fun h => ⟨trivial, h⟩, fun h => h.2⟩
  | cons name names ih =>
      constructor
      · rintro ⟨hname, hrest⟩
        obtain ⟨hfront, hback⟩ := ih.mp hrest
        exact ⟨⟨hname, hfront⟩, hback⟩
      · rintro ⟨⟨hname, hfront⟩, hback⟩
        exact ⟨hname, ih.mpr ⟨hfront, hback⟩⟩

/-- Names stay clear as long as there are no new files on the way. -/
theorem Clear.of_files (h : disk.Clear place names)
    (hfiles : ∀ before : List String, before <+: names → ∀ content : ByteArray,
      later.entry? (follow place before) = some (.file content) →
      disk.entry? (follow place before) = some (.file content)) :
    later.Clear place names := by
  induction names generalizing place with
  | nil => exact trivial
  | cons name names ih =>
      obtain ⟨hname, hrest⟩ := h
      refine ⟨?_, ih hrest fun before hbefore => hfiles (name :: before) ?_⟩
      · rcases hname with hdot | hup | ⟨hshort, hentry⟩
        · exact Or.inl hdot
        · exact Or.inr (Or.inl hup)
        · by_cases hdots : name = "." ∨ name = ".."
          · rcases hdots with hdot | hup
            · exact Or.inl hdot
            · exact Or.inr (Or.inl hup)
          -- a file there now was there before
          refine Or.inr (Or.inr ⟨hshort, fun hfile => hentry ?_⟩)
          obtain ⟨entry, hthere, hkind⟩ := Option.map_eq_some_iff.mp hfile
          cases entry with
          | directory => cases hkind
          | file content =>
              have hstep : follow place [name] = place ++ [name] := by
                rw [not_or] at hdots
                exact follow_of_no_dots
                  (fun n hn => List.mem_singleton.mp hn ▸ hdots) place
              have hkeep := hfiles [name] ⟨names, rfl⟩ content
              rw [hstep] at hkeep
              rw [hkeep hthere]
              rfl
      · exact List.cons_prefix_cons.mpr ⟨rfl, hbefore⟩

/-- Names that lead on later are clear. -/
theorem Grows.clear_of_foldlM (h : Grows disk later) {place' : Location}
    (hnames : names.foldlM later.enter place = .ok place') : disk.Clear place names := by
  induction names generalizing place with
  | nil => exact trivial
  | cons name names ih =>
      rw [List.foldlM_cons] at hnames
      obtain ⟨next, hname, hrest⟩ := eq_ok_of_bind hnames
      obtain ⟨rfl, hway⟩ := enter_eq_ok_iff.mp hname
      refine ⟨?_, ih hrest⟩
      rcases hway with hdot | hup | ⟨hshort, hdirectory⟩
      · exact Or.inl hdot
      · exact Or.inr (Or.inl hup)
      · -- a file would have stayed
        refine Or.inr (Or.inr ⟨hshort, fun hfile => ?_⟩)
        obtain ⟨entry, hentry, hkind⟩ := Option.map_eq_some_iff.mp hfile
        rw [h.entries _ _ hentry] at hdirectory
        cases hdirectory
        cases hkind

/-- A name that can be gone through leads on or is missing. -/
theorem enter_of_admits {name : String} (h : disk.Admits place name) :
    disk.enter place name = .ok (walk place name)
      ∨ disk.enter place name = .error .missing := by
  rw [enter, walk]
  by_cases hdot : name = "."
  · exact Or.inl (by rw [if_pos hdot, if_pos hdot])
  by_cases hup : name = ".."
  · exact Or.inl (by rw [if_neg hdot, if_neg hdot, if_pos hup, if_pos hup])
  rcases h with hdot' | hup' | ⟨hshort, hentry⟩
  · exact absurd hdot' hdot
  · exact absurd hup' hup
  rw [if_neg hdot, if_neg hdot, if_neg hup, if_neg hup, hshort, if_neg Bool.false_ne_true]
  cases hthere : disk.entry? (place ++ [name]) with
  | none => exact Or.inr rfl
  | some entry =>
      cases entry with
      | directory => exact Or.inl rfl
      | file content =>
          rw [hthere] at hentry
          exact absurd rfl hentry

/-- Clear names lead on or are missing. -/
theorem foldlM_of_clear (h : disk.Clear place names) :
    names.foldlM disk.enter place = .ok (follow place names)
      ∨ names.foldlM disk.enter place = .error .missing := by
  induction names generalizing place with
  | nil => exact Or.inl rfl
  | cons name names ih =>
      obtain ⟨hname, hrest⟩ := h
      rw [List.foldlM_cons]
      rcases enter_of_admits hname with hok | hmissing
      · rw [hok]
        exact ih hrest
      · rw [hmissing]
        exact Or.inr rfl

theorem foldlM_of_onlyDots (h : Path.OnlyDots names) (disk : Disk) (place : Location) :
    names.foldlM disk.enter place = .ok place := by
  induction names with
  | nil => rfl
  | cons name names ih =>
      have hdot := h name (List.mem_cons_self ..)
      rw [List.foldlM_cons, enter, if_pos hdot]
      exact ih fun n hn => h n (List.mem_cons_of_mem _ hn)

/-! ## Targets -/

variable {front : List String} {last : String}

/-- The target of a path is found below the directory that the names before the last
    lead to. -/
theorem target_of_names (hbegin : disk.begin path = .ok start)
    (hnames : Path.names path = front ++ [last]) :
    disk.target path = front.foldlM disk.enter start >>= fun parent =>
      if last = "." || last = ".." then (disk.enter parent last).map .directory
      else .ok (.name parent last) := by
  rw [target, hbegin, hnames, ok_bind]
  simp only [List.getLast?_concat, List.dropLast_concat]
  cases front.foldlM disk.enter start with
  | error reason => rfl
  | ok parent =>
      show (if _ then _ else _) = if _ then _ else _
      by_cases hdots : (last = "." || last = "..") = true
      · rw [if_pos hdots, if_pos hdots]
        cases disk.enter parent last <;> rfl
      · rw [if_neg hdots, if_neg hdots]
        rfl

/-- The directories on the way to what is found are there. -/
theorem foldlM_of_find {entry : Entry}
    (hnames : Path.names path = front ++ [last]) (h : disk.find path = .ok entry) :
    ∃ parent : Location, front.foldlM disk.enter (disk.startOf path) = .ok parent := by
  rw [find] at h
  obtain ⟨t, htarget, -⟩ := eq_ok_of_bind h
  have hbegin := htarget
  rw [target] at hbegin
  obtain ⟨start, hbegin, -⟩ := eq_ok_of_bind hbegin
  obtain rfl := eq_startOf_of_begin hbegin
  rw [target_of_names hbegin hnames] at htarget
  obtain ⟨parent, hparent, -⟩ := eq_ok_of_bind htarget
  exact ⟨parent, hparent⟩

theorem enter_eq_walk_iff {name : String} (hdots : ¬ (name = "." || name = "..") = true) :
    disk.enter place name = .ok (walk place name)
      ↔ isLongName name = false ∧ disk.entry? (place ++ [name]) = some .directory := by
  obtain ⟨hdot, hup⟩ := Path.neither_dots_iff.mp hdots
  rw [enter_eq_ok_iff, or_iff_right hdot, or_iff_right hup]
  exact and_iff_right rfl

/-- The first name on the way to what is found names a directory. -/
theorem directory_of_find {first last : String} {mid : List String} {entry : Entry}
    (hnames : Path.names path = first :: mid ++ [last])
    (hdots : ¬ (first = "." || first = "..") = true) (h : disk.find path = .ok entry) :
    disk.entry? (disk.startOf path ++ [first]) = some .directory := by
  obtain ⟨parent, hparent⟩ := foldlM_of_find hnames h
  rw [List.foldlM_cons] at hparent
  obtain ⟨place, henter, -⟩ := eq_ok_of_bind hparent
  rw [(enter_eq_ok_iff.mp henter).1] at henter
  exact ((enter_eq_walk_iff hdots).mp henter).2

/-- A name is missing if there is nothing where it leads. -/
theorem of_enter_missing {name : String} (h : disk.enter place name = .error .missing) :
    ¬ (name = "." || name = "..") = true ∧ isLongName name = false
      ∧ disk.entry? (place ++ [name]) = none := by
  rw [Path.neither_dots_iff]
  rw [enter] at h
  by_cases hdot : name = "."
  · rw [if_pos hdot] at h
    cases h
  rw [if_neg hdot] at h
  by_cases hup : name = ".."
  · rw [if_pos hup] at h
    cases h
  rw [if_neg hup] at h
  by_cases hlong : isLongName name = true
  · rw [if_pos hlong] at h
    cases h
  rw [if_neg hlong] at h
  refine ⟨⟨hdot, hup⟩, Bool.eq_false_iff.mpr hlong, ?_⟩
  cases hentry : disk.entry? (place ++ [name]) with
  | none => rfl
  | some entry => rw [hentry] at h; cases entry <;> cases h

/-- The directories on a path are there if those on the way to its last name are, and
    that leads on. -/
theorem reaches_of_enter (hnames : Path.names path = front ++ [last])
    (hfront : front.foldlM disk.enter (disk.startOf path) = .ok (follow (disk.startOf path) front))
    (hlast : disk.enter (follow (disk.startOf path) front) last
      = .ok (walk (follow (disk.startOf path) front) last)) :
    disk.Reaches path := by
  rw [Reaches, hnames, List.foldlM_append, hfront, follow_append]
  show ([last].foldlM disk.enter _) = _
  rw [List.foldlM_cons, hlast]
  rfl

/-- At the end of directories there is one. -/
theorem target_of_reaches (hbegin : disk.begin path = .ok start) (h : disk.Reaches path) :
    (∃ place : Location, disk.target path = .ok (.directory place))
      ∨ ∃ (parent : Location) (last : String), disk.target path = .ok (.name parent last)
          ∧ isLongName last = false ∧ disk.entry? (parent ++ [last]) = some .directory := by
  obtain rfl := eq_startOf_of_begin hbegin
  rcases List.eq_nil_or_concat (Path.names path) with hnil | ⟨front, last, hnames⟩
  · refine Or.inl ⟨disk.startOf path, ?_⟩
    rw [target, hbegin, hnil]
    rfl
  · rw [List.concat_eq_append] at hnames
    rw [Reaches, hnames, List.foldlM_append] at h
    obtain ⟨parent, hparent, hlast⟩ := eq_ok_of_bind h
    rw [List.foldlM_cons] at hlast
    obtain ⟨place, henter, -⟩ := eq_ok_of_bind hlast
    rw [target_of_names hbegin hnames, hparent, ok_bind]
    by_cases hdots : (last = "." || last = "..") = true
    · refine Or.inl ⟨place, ?_⟩
      rw [if_pos hdots, henter]
      rfl
    · rw [(enter_eq_ok_iff.mp henter).1] at henter
      rw [if_neg hdots]
      exact Or.inr ⟨parent, last, rfl, (enter_eq_walk_iff hdots).mp henter⟩

/-- A directory is found at the end of directories. -/
theorem find_of_reaches (hbegin : disk.begin path = .ok start) (h : disk.Reaches path) :
    disk.find path = .ok .directory := by
  rw [find]
  rcases target_of_reaches hbegin h with ⟨place, htarget⟩ | ⟨parent, last, htarget, hshort, hentry⟩
  · rw [htarget]
    rfl
  · rw [htarget, ok_bind, findAt]
    simp only [hshort, hentry]
    rfl

/-- A directory that is there is not made again. -/
theorem makeDirectory_of_reaches (hbegin : disk.begin path = .ok start) (h : disk.Reaches path) :
    disk.makeDirectory path = .error .occupied := by
  rw [makeDirectory]
  rcases target_of_reaches hbegin h with ⟨place, htarget⟩ | ⟨parent, last, htarget, hshort, hentry⟩
  · rw [htarget]
    rfl
  · rw [htarget, ok_bind, makeDirectoryAt]
    simp only [hshort, hentry]
    rfl

/-- Whether an attempt to make a directory leaves one at the end of a path: it is made,
    or was there. -/
def Leaves (disk : Disk) (path : String) (later : Disk) : Prop :=
  disk.makeDirectory path = .ok later
    ∨ disk.makeDirectory path = .error .occupied ∧ disk.find path = .ok .directory ∧ later = disk

/-- A directory at the end of a clear way is left there, or lacks a parent. -/
theorem makeDirectory_of_clear (hbegin : disk.begin path = .ok start)
    (hclear : disk.Clear start (Path.names path)) :
    (∃ later : Disk, disk.Leaves path later ∧ later.Reaches path)
      ∨ disk.makeDirectory path = .error .missing
        ∧ (Path.names path).dropLast.foldlM disk.enter start = .error .missing := by
  obtain rfl := eq_startOf_of_begin hbegin
  rcases List.eq_nil_or_concat (Path.names path) with hnil | ⟨front, last, hnames⟩
  · have hreaches : disk.Reaches path := by
      rw [Reaches, hnil]
      rfl
    exact Or.inl ⟨disk, Or.inr ⟨makeDirectory_of_reaches hbegin hreaches,
      find_of_reaches hbegin hreaches, rfl⟩, hreaches⟩
  rw [List.concat_eq_append] at hnames
  rw [hnames, List.dropLast_concat]
  rw [hnames, clear_append] at hclear
  obtain ⟨hfront, hlast, -⟩ := hclear
  have htarget := target_of_names hbegin hnames
  -- the last name is looked at only if all before it are there
  rcases foldlM_of_clear hfront with hparent | hmissing
  · rw [hparent] at htarget
    change _ = if _ then _ else _ at htarget
    rcases enter_of_admits hlast with hok | hmissing
    · have hreaches := reaches_of_enter hnames hparent hok
      exact Or.inl ⟨disk, Or.inr ⟨makeDirectory_of_reaches hbegin hreaches,
        find_of_reaches hbegin hreaches, rfl⟩, hreaches⟩
    · obtain ⟨hdots, hshort, hfree⟩ := of_enter_missing hmissing
      have hgrows := grows_put hfree .directory
      refine Or.inl ⟨disk.put (follow (disk.startOf path) front ++ [last]) .directory,
        Or.inl ?_, ?_⟩
      · rw [if_neg hdots] at htarget
        rw [makeDirectory, htarget]
        show (if isLongName last then _ else _) = _
        rw [hshort, if_neg Bool.false_ne_true, hfree]
        rfl
      · rw [← hgrows.startOf] at hparent ⊢
        refine reaches_of_enter hnames (hgrows.foldlM_enter hparent) ?_
        rw [hgrows.startOf]
        exact (enter_eq_walk_iff hdots).mpr
          ⟨hshort, entry?_put_self (ne_root_of_free hfree) disk _⟩
  · refine Or.inr ⟨?_, hmissing⟩
    rw [hmissing] at htarget
    rw [makeDirectory, htarget]
    rfl

/-- The beginning of a path begins where the path does, unless it is empty. -/
theorem begin_of_prefix {up : String} (hbegin : disk.begin path = .ok start)
    (hfirst : up.toList <+: path.toList) (habsolute : Path.isAbsolute up = Path.isAbsolute path)
    (hne : up ≠ "") : disk.begin up = .ok start := by
  obtain ⟨more, hmore⟩ := hfirst
  obtain rfl : path = up ++ String.ofList more := by
    rw [← String.toList_inj, String.toList_append, String.toList_ofList, hmore]
  rw [begin_eq_ok_iff] at hbegin ⊢
  obtain ⟨-, hnul, hlong, hstart⟩ := hbegin
  rw [String.toList_append, List.mem_append, not_or] at hnul
  rw [String.utf8ByteSize_append] at hlong
  refine ⟨hne, hnul.1, by omega, ?_⟩
  rw [hstart, startOf, startOf, habsolute]

end Disk

namespace Job

open Disk

variable {α β : Type} {paths : List String}

/-! ## Jobs that only make directories -/

/-- Whether a job changes nothing but that it makes directories at some paths. -/
def MakesOnly (paths : List String) : Job α → Prop
  | .done _ => True
  | .look _ next => ∀ answer, (next answer).MakesOnly paths
  | .read _ next => ∀ answer, (next answer).MakesOnly paths
  | .makeDirectory path next => path ∈ paths ∧ ∀ answer, (next answer).MakesOnly paths
  | .create _ _ _ => False
  | .here next => ∀ answer, (next answer).MakesOnly paths

/-- Such a job writes nothing. -/
theorem MakesOnly.writes_eq_nil {job : Job α} (h : job.MakesOnly paths) (disk : Disk) :
    job.writes disk = [] := by
  induction job generalizing disk with
  | done result => rfl
  | look path next ih => exact ih _ (h _) _
  | read path next ih => exact ih _ (h _) _
  | makeDirectory path next ih => exact ih _ (h.2 _) _
  | create path text next _ => exact absurd h id
  | here next ih => exact ih _ (h _) _

/-- Such a job adds only directories where the paths lead. -/
theorem MakesOnly.addsWaysTo {job : Job α} (h : job.MakesOnly paths) (disk : Disk) :
    Disk.AddsWaysTo disk (job.run disk).2 paths := by
  induction job generalizing disk with
  | done result => exact Disk.AddsWaysTo.refl disk paths
  | look path next ih => exact ih _ (h _) _
  | read path next ih => exact ih _ (h _) _
  | makeDirectory path next ih =>
      have hrest := ih _ (h.2 (settle disk (disk.makeDirectory path)).1)
        (settle disk (disk.makeDirectory path)).2
      refine Disk.AddsWaysTo.trans ?_ (grows_settle fun _ => Disk.grows_makeDirectory) hrest
      cases hmake : disk.makeDirectory path with
      | ok later => exact Disk.addsWaysTo_makeDirectory h.1 hmake
      | error reason => exact Disk.AddsWaysTo.refl disk paths
  | create path text next _ => exact absurd h id
  | here next ih => exact ih _ (h _) _

/-- A job that makes no directories either leaves the disk as it is. -/
theorem MakesOnly.run_eq {job : Job α} (h : job.MakesOnly []) (disk : Disk) :
    (job.run disk).2 = disk := by
  induction job with
  | done result => rfl
  | look path next ih => exact ih _ (h _)
  | read path next ih => exact ih _ (h _)
  | makeDirectory path next ih => exact absurd h.1 List.not_mem_nil
  | create path text next _ => exact absurd h id
  | here next ih => exact ih _ (h _)

theorem MakesOnly.file {job : Job α} (h : job.MakesOnly paths) {disk : Disk} {place : Location}
    {content : ByteArray} (hfile : Disk.entry? (job.run disk).2 place = some (.file content)) :
    disk.entry? place = some (.file content) := by
  rcases written_of_appears hfile with hthere | ⟨write, hwrite, -⟩
  · exact hthere
  · rw [h.writes_eq_nil] at hwrite
    cases hwrite

/-- So what was clear before such a job is clear afterwards. -/
theorem MakesOnly.clear {job : Job α} (h : job.MakesOnly paths) {disk : Disk}
    {place : Location} {names : List String} (hclear : disk.Clear place names) :
    Disk.Clear (job.run disk).2 place names :=
  hclear.of_files fun _ _ _ => h.file

/-- Two such jobs one after the other are one. -/
theorem MakesOnly.bind {job : Job α} {f : α → Job β} (h : job.MakesOnly paths)
    (hf : ∀ a, (f a).MakesOnly paths) : (job >>= f).MakesOnly paths := by
  show (job.andThen f).MakesOnly paths
  induction job with
  | done result => exact hf result
  | look path next ih => exact fun answer => ih answer (h answer)
  | read path next ih => exact fun answer => ih answer (h answer)
  | makeDirectory path next ih => exact ⟨h.1, fun answer => ih answer (h.2 answer)⟩
  | create path text next _ => exact absurd h id
  | here next ih => exact fun answer => ih answer (h answer)

/-- More paths allow more. -/
theorem MakesOnly.mono {paths' : List String} {job : Job α} (h : job.MakesOnly paths)
    (hsub : ∀ path ∈ paths, path ∈ paths') : job.MakesOnly paths' := by
  induction job with
  | done result => exact trivial
  | look path next ih => exact fun answer => ih answer (h answer)
  | read path next ih => exact fun answer => ih answer (h answer)
  | makeDirectory path next ih => exact ⟨hsub _ h.1, fun answer => ih answer (h.2 answer)⟩
  | create path text next _ => exact absurd h id
  | here next ih => exact fun answer => ih answer (h answer)

/-- Making a directory and its parents makes only these. -/
theorem makesOnly_makeChain (paths : List String) : (makeChain paths).MakesOnly paths := by
  induction paths with
  | nil => exact trivial
  | cons path up ih =>
      have hhead : path ∈ path :: up := List.mem_cons_self ..
      have hcheck : ∀ reason : Refusal,
          (do return if ← isDirectory path then .ok () else .error reason :
            Job (Except Refusal Unit)).MakesOnly (path :: up) :=
        fun reason answer => trivial
      refine ⟨hhead, fun answer => ?_⟩
      cases answer with
      | ok _ => exact trivial
      | error reason =>
          cases reason with
          | missing =>
              -- the parents first, then a last try
              refine (ih.mono fun _ => List.mem_cons_of_mem _).bind fun outcome => ?_
              cases outcome with
              | error reason => exact trivial
              | ok _ =>
                  refine ⟨hhead, fun answer => ?_⟩
                  cases answer with
                  | ok _ => exact trivial
                  | error reason => exact hcheck reason
          | _ => exact hcheck _

/-! ## Making a directory and its parents -/

theorem run_isDirectory {disk : Disk} {path : String} (h : disk.find path = .ok .directory) :
    (isDirectory path).run disk = (true, disk) := by
  show (((disk.find path).toOption.map Entry.kind == some .directory), disk) = _
  rw [h]
  rfl

/-- A first attempt may do. -/
theorem run_makeChain_of_leaves {disk later : Disk} {path : String} (up : List String)
    (h : Leaves disk path later) : (makeChain (path :: up)).run disk = (.ok (), later) := by
  rw [makeChain, run_bind, makeOne, run]
  rcases h with hmade | ⟨htaken, hfind, rfl⟩
  · rw [hmade]
    rfl
  · rw [htaken]
    show ((isDirectory path >>= _).run later) = _
    rw [run_bind, run_isDirectory hfind]
    rfl

/-- Otherwise the parents are made first. -/
theorem run_makeChain_of_missing {disk mid later : Disk} {path : String} {up : List String}
    (hmissing : disk.makeDirectory path = .error .missing)
    (hup : (makeChain up).run disk = (.ok (), mid)) (h : Leaves mid path later) :
    (makeChain (path :: up)).run disk = (.ok (), later) := by
  rw [makeChain, run_bind, makeOne, run, hmissing]
  show ((makeChain up >>= _).run disk) = _
  rw [run_bind, hup]
  show ((makeOne path >>= _).run mid) = _
  rw [run_bind, makeOne, run]
  rcases h with hmade | ⟨htaken, hfind, rfl⟩
  · rw [hmade]
    rfl
  · rw [htaken]
    show ((isDirectory path >>= _).run later) = _
    rw [run_bind, run_isDirectory hfind]
    rfl

/-- **Making directories.**  A directory and the parents it lacks are made if no file
    stands in the way and no name is too long. -/
theorem run_makeDirectories {disk : Disk} {path : String} {start : Location}
    (hbegin : disk.begin path = .ok start) (hclear : disk.Clear start (Path.names path))
    (hsettled : Path.Settled path) :
    ∃ later : Disk, (makeDirectories path).run disk = (.ok (), later) ∧ later.Reaches path := by
  rw [makeDirectories]
  induction path using Path.ancestors.induct with
  | case1 path hempty =>
      rw [begin, if_pos hempty] at hbegin
      cases hbegin
  | case2 path hempty ih =>
      rcases makeDirectory_of_clear hbegin hclear with
        ⟨later, hleaves, hreaches⟩ | ⟨hmissing, hfront⟩
      · obtain ⟨up, hup⟩ := Path.ancestors_cons (fun h => hempty (String.isEmpty_iff.mpr h))
        rw [hup]
        exact ⟨later, run_makeChain_of_leaves up hleaves, hreaches⟩
      -- a parent is missing, so there is one
      rcases hsettled with hdots | ⟨last, hlast, hdot⟩
      · rw [foldlM_of_onlyDots (fun part hpart => hdots part (List.dropLast_subset _ hpart))]
          at hfront
        cases hfront
      obtain ⟨up, dots, hparent, hdots, hnames, hup⟩ := Path.parent?_of_last hlast hdot
      rw [hnames, ← List.append_assoc, List.dropLast_concat] at hfront
      -- only dots stand before a single name, and they are never missing
      have hne : up ≠ "" := by
        rintro rfl
        rw [show Path.names "" = [] from rfl, List.nil_append, foldlM_of_onlyDots hdots]
          at hfront
        cases hfront
      have hbegin' := begin_of_prefix hbegin (Path.toList_parent?_prefix hparent)
        (Path.names_parent? hparent).1 hne
      rw [hnames, clear_append] at hclear
      obtain ⟨mid, hrun, hmid⟩ := ih up hparent hbegin' hclear.1 hup
      -- with the parents the disk has grown, and what was clear is so still
      have hgrows := grows_run disk (makeChain (Path.ancestors up))
      have hclear' : Disk.Clear ((makeChain (Path.ancestors up)).run disk).2 start
          (Path.names up ++ (dots ++ [last])) :=
        (makesOnly_makeChain _).clear (clear_append.mpr hclear)
      rw [hrun] at hgrows hclear'
      rw [← hnames] at hclear'
      have hmid' : (Path.names up ++ dots).foldlM mid.enter start
          = .ok (follow start (Path.names up)) := by
        rw [Reaches, ← eq_startOf_of_begin ((hgrows.begin _).trans hbegin')] at hmid
        rw [List.foldlM_append, hmid]
        exact foldlM_of_onlyDots hdots mid _
      rw [Path.ancestors_of_parent? hparent]
      -- the second attempt finds the parents
      rcases makeDirectory_of_clear ((hgrows.begin _).trans hbegin) hclear' with
        ⟨later, hleaves, hreaches⟩ | ⟨-, hagain⟩
      · exact ⟨later, run_makeChain_of_missing hmissing hrun hleaves, hreaches⟩
      · rw [hnames, ← List.append_assoc, List.dropLast_concat, hmid'] at hagain
        cases hagain

end Job

end Stencil.Files
