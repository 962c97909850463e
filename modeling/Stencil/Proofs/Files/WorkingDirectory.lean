import Mathlib.Data.List.Induction
import Mathlib.Data.List.Infix
import Stencil.Proofs.Files.Directories

/-! # The working directory and what it lies in

    A location has an absolute path (`Job.absolute`).  If its names can be names at all,
    they are the names of that path again, and the parents of the path are those of the
    location (`ancestors_absolute`).

    A relative path may be put after the path of the working directory.  A file that is
    found so is found under the relative path alone, too (`Disk.find_of_find_join`). -/

namespace Stencil

namespace Path

/-- Whether a text can be a name: it is no dots, not empty and has no slash. -/
structure IsName (name : String) : Prop where
  ne_empty : name ≠ ""
  ne_dot : name ≠ "."
  ne_dots : name ≠ ".."
  no_slash : '/' ∉ name.toList

theorem isName_iff {name : String} : IsName name
    ↔ name ≠ "" ∧ name ≠ "." ∧ name ≠ ".." ∧ '/' ∉ name.toList :=
  ⟨fun h => ⟨h.1, h.2, h.3, h.4⟩, fun ⟨h, h', h'', h'''⟩ => ⟨h, h', h'', h'''⟩⟩

instance (name : String) : Decidable (IsName name) :=
  decidable_of_iff _ isName_iff.symm

variable {name : String}

theorem IsName.relative (h : IsName name) : isAbsolute name = false :=
  decide_eq_false fun hhead => h.no_slash (List.mem_of_head? hhead)

/-- Nothing idle is at the end of a name. -/
theorem IsName.stripIdle (h : IsName name) (rest : List Char) :
    stripIdle (name.toList.reverse ++ rest) = name.toList.reverse ++ rest := by
  have hslash : '/' ∉ name.toList.reverse := fun hmem => h.no_slash (List.mem_reverse.mp hmem)
  have hdot : name.toList.reverse ≠ ['.'] := by
    intro hword
    refine h.ne_dot (String.toList_inj.mp ?_)
    rw [← List.reverse_reverse name.toList, hword]
    rfl
  have hempty : name.toList.reverse ≠ [] := fun hnil =>
    h.ne_empty (String.toList_eq_nil_iff.mp (List.reverse_eq_nil_iff.mp hnil))
  obtain ⟨c, word, hword⟩ := List.exists_cons_of_ne_nil hempty
  rw [hword] at hslash hdot ⊢
  rw [List.mem_cons, not_or] at hslash
  have hc : c = '.' → ∃ (d : Char) (rest' : List Char), word = d :: rest' ∧ d ≠ '/' := by
    rintro rfl
    cases word with
    | nil => exact absurd rfl hdot
    | cons d word => exact ⟨d, word, rfl, fun hd => hslash.2 (hd ▸ List.mem_cons_self ..)⟩
  rw [List.cons_append]
  refine Path.stripIdle.eq_4 _ ?_ ?_ ?_
  · rintro body ⟨⟩
    exact hslash.1 rfl
  · intro hsame
    obtain ⟨d, word, rfl, -⟩ := hc (List.cons.inj hsame).1
    cases (List.cons.inj hsame).2
  · intro body hsame
    obtain ⟨d, word, rfl, hd⟩ := hc (List.cons.inj hsame).1
    exact hd (List.cons.inj (List.cons.inj hsame).2).1

/-- A name is dropped whole. -/
theorem IsName.dropName (h : IsName name) (rest : List Char) :
    dropName (name.toList.reverse ++ rest) = Path.dropName rest := by
  have hall : ∀ c ∈ name.toList.reverse, (decide (c ≠ '/')) = true := by
    intro c hc
    refine decide_eq_true fun heq => h.no_slash ?_
    rw [← heq]
    exact List.mem_reverse.mp hc
  rw [Path.dropName, List.dropWhile_append_of_pos hall]
  rfl

end Path

namespace Files

open Stencil.Path (IsName)

variable {place here : Location} {name : String}

/-! ## Paths of locations -/

/-- The path of a location without the slash at its start. -/
def trail (place : Location) : List Char :=
  ("/".intercalate place).toList

theorem toList_absolute (place : Location) : (Job.absolute place).toList = '/' :: trail place := by
  rw [Job.absolute, String.toList_append]
  rfl

theorem trail_singleton (name : String) : trail [name] = name.toList := by
  rw [trail, String.intercalate_singleton]

theorem trail_concat (hne : place ≠ []) (name : String) :
    trail (place ++ [name]) = trail place ++ '/' :: name.toList := by
  rw [trail, String.intercalate_append_of_ne_nil hne (List.cons_ne_nil _ _),
    String.intercalate_singleton, String.toList_append, String.toList_append, List.append_assoc]
  rfl

/-- The path of a location ends in the last name, and dropping that leaves the path of the
    location above. -/
theorem reverse_trail_concat (place : Location) (hname : IsName name) :
    ∃ rest : List Char, (trail (place ++ [name])).reverse = name.toList.reverse ++ rest
      ∧ Path.dropName (name.toList.reverse ++ rest) = (trail place).reverse := by
  by_cases hne : place = []
  · subst hne
    refine ⟨[], ?_, ?_⟩
    · rw [List.nil_append, trail_singleton, List.append_nil]
    · rw [hname.dropName]
      rfl
  · refine ⟨'/' :: (trail place).reverse, ?_, ?_⟩
    · rw [trail_concat hne, List.reverse_append, List.reverse_cons, List.append_assoc]
      rfl
    · rw [hname.dropName]
      rfl

/-- Nothing idle is at the end of the path of a location. -/
theorem stripIdle_trail (hplace : ∀ name ∈ place, IsName name) :
    Path.stripIdle (trail place).reverse = (trail place).reverse := by
  rcases List.eq_nil_or_concat place with rfl | ⟨above, name, rfl⟩
  · rfl
  · rw [List.concat_eq_append] at hplace ⊢
    have hname : IsName name := hplace name (List.mem_append_right _ (List.mem_singleton_self _))
    obtain ⟨rest, hrest, -⟩ := reverse_trail_concat above hname
    rw [hrest, hname.stripIdle]

/-- The parent of the path of a location is that of the location above. -/
theorem parent?_absolute (hplace : ∀ name ∈ place, IsName name) (hname : IsName name) :
    Path.parent? (Job.absolute (place ++ [name])) = some (Job.absolute place) := by
  obtain ⟨rest, hrest, hdrop⟩ := reverse_trail_concat place hname
  have hne : name.toList.reverse ++ rest ≠ [] := by
    refine List.append_ne_nil_of_left_ne_nil (fun hnil => hname.ne_empty ?_) _
    exact String.toList_eq_nil_iff.mp (List.reverse_eq_nil_iff.mp hnil)
  have hup : Job.absolute place = String.ofList ('/' :: trail place) := by
    rw [← toList_absolute, String.ofList_toList]
  have hhead : Path.headBody ('/' :: trail (place ++ [name])) = (['/'], trail (place ++ [name])) :=
    rfl
  rw [Path.parent?, toList_absolute, hhead]
  simp only [hrest, hname.stripIdle]
  rw [hdrop, stripIdle_trail hplace, List.reverse_reverse, hup, List.singleton_append]

/-- Above the root is nothing. -/
theorem parent?_absolute_nil : Path.parent? (Job.absolute []) = none := by
  rfl

/-- The ancestors of the path of a location are the paths of the locations it lies in, the
    nearest first. -/
theorem ancestors_absolute (hplace : ∀ name ∈ place, IsName name) :
    Path.ancestors (Job.absolute place) = place.inits.reverse.map Job.absolute := by
  induction place using List.reverseRecOn with
  | nil =>
      rw [Path.ancestors, if_neg (by decide)]
      split
      next hup => cases parent?_absolute_nil.symm.trans hup
      next => rfl
  | append_singleton place name ih =>
      have habove : ∀ other ∈ place, IsName other :=
        fun other hother => hplace other (List.mem_append_left _ hother)
      have hname : IsName name :=
        hplace name (List.mem_append_right _ (List.mem_singleton_self _))
      have hinits : (place ++ [name]).inits = place.inits ++ [place ++ [name]] := by
        rw [List.inits_append]
        rfl
      rw [Path.ancestors_of_parent? (parent?_absolute habove hname), ih habove, hinits,
        List.reverse_append]
      rfl

/-- The names of the path of a location are its own. -/
theorem names_absolute (hplace : ∀ name ∈ place, IsName name) :
    Path.names (Job.absolute place) = place := by
  rw [Path.names_eq_nameParts, toList_absolute]
  refine (Path.nameParts_append [] (trail place)).trans ?_
  exact Path.names_intercalate fun name hname =>
    ⟨(hplace name hname).ne_empty, (hplace name hname).no_slash⟩

theorem isAbsolute_absolute (place : Location) : Path.isAbsolute (Job.absolute place) = true := by
  rw [Path.isAbsolute, toList_absolute]
  rfl

/-! ## Paths put after the working directory -/

namespace Disk

variable {disk : Disk} {path : String} {start : Location}

/-- A path that may begin after that of the working directory may begin without it, there. -/
theorem begin_of_begin_join (hrelative : Path.isAbsolute path = false) (hne : path ≠ "")
    (h : disk.begin (Path.join (Job.absolute disk.here) path) = .ok start) :
    start = [] ∧ disk.begin path = .ok disk.here := by
  obtain ⟨front, hfront⟩ : ∃ front : String,
      Path.join (Job.absolute disk.here) path = front ++ path := by
    rw [Path.join, hrelative, if_neg Bool.false_ne_true]
    split
    · exact ⟨_, rfl⟩
    · exact ⟨_, rfl⟩
  obtain ⟨-, hnul, hsize, hstart⟩ := begin_eq_ok_iff.mp h
  have habsolute : Path.isAbsolute (Path.join (Job.absolute disk.here) path) = true := by
    rw [Path.isAbsolute_join _ hrelative, isAbsolute_absolute]
  rw [startOf, if_pos habsolute] at hstart
  rw [hfront] at hnul hsize
  rw [String.toList_append, List.mem_append, not_or] at hnul
  rw [String.utf8ByteSize_append] at hsize
  refine ⟨hstart, begin_eq_ok_iff.mpr ⟨hne, hnul.2, by omega, ?_⟩⟩
  rw [startOf, hrelative, if_neg Bool.false_ne_true]

/-- A path leads where it leads after that of the working directory. -/
theorem target_of_target_join (hhere : ∀ name ∈ disk.here, IsName name)
    (hrelative : Path.isAbsolute path = false) (hne : path ≠ "") {t : Target}
    (h : disk.target (Path.join (Job.absolute disk.here) path) = .ok t) :
    disk.target path = .ok t := by
  have hbegun := h
  rw [target] at hbegun
  obtain ⟨start, hstart, -⟩ := eq_ok_of_bind hbegun
  obtain ⟨rfl, hbegin⟩ := begin_of_begin_join hrelative hne hstart
  obtain ⟨front, last, hnames⟩ : ∃ (front : List String) (last : String),
      Path.names path = front ++ [last] := by
    rcases List.eq_nil_or_concat (Path.names path) with hnil | ⟨front, last, hconcat⟩
    · exact absurd hnil (Path.names_ne_nil hne hrelative)
    · exact ⟨front, last, hconcat.trans (List.concat_eq_append ..)⟩
  have hjoined : Path.names (Path.join (Job.absolute disk.here) path)
      = (disk.here ++ front) ++ [last] := by
    rw [Path.names_join _ hrelative, names_absolute hhere, hnames, List.append_assoc]
  rw [target_of_names hstart hjoined, List.foldlM_append] at h
  obtain ⟨parent, hparent, hlast⟩ := eq_ok_of_bind h
  obtain ⟨here, hdown, hfront⟩ := eq_ok_of_bind hparent
  -- the names of the working directory lead down to it
  obtain rfl : here = disk.here := by
    rw [eq_follow_of_foldlM hdown, follow_of_no_dots fun name hname =>
      ⟨(hhere name hname).ne_dot, (hhere name hname).ne_dots⟩]
    rfl
  rw [target_of_names hbegin hnames, hfront, ok_bind]
  exact hlast

/-- No file is found at a path that ends in a slash. -/
theorem endsInSlash_of_find {content : ByteArray} (h : disk.find path = .ok (.file content)) :
    Path.endsInSlash path = false := by
  refine Bool.eq_false_iff.mpr fun hslash => ?_
  rw [find] at h
  obtain ⟨t, -, h⟩ := eq_ok_of_bind h
  cases t with
  | directory place => cases h
  | name parent last =>
      rw [findAt] at h
      by_cases hlong : isLongName last = true
      · simp only [hlong] at h
        cases h
      simp only [hlong, hslash] at h
      cases hentry : disk.entry? (parent ++ [last]) with
      | none => simp only [hentry] at h; cases h
      | some entry =>
          simp only [hentry] at h
          cases entry <;> cases h

/-- A file that is found after the path of the working directory is found without it. -/
theorem find_of_find_join (hhere : ∀ name ∈ disk.here, IsName name)
    (hrelative : Path.isAbsolute path = false) {content : ByteArray}
    (h : disk.find (Path.join (Job.absolute disk.here) path) = .ok (.file content)) :
    disk.find path = .ok (.file content) := by
  have hne : path ≠ "" := by
    rintro rfl
    have hslash := endsInSlash_of_find h
    rw [Path.join, hrelative, if_neg Bool.false_ne_true] at hslash
    split at hslash
    next hbase =>
      rw [String.append_empty] at hslash
      rw [hslash, Bool.or_false, String.isEmpty_iff] at hbase
      exact absurd (hbase ▸ isAbsolute_absolute disk.here) (by decide)
    next =>
      rw [String.append_empty, Path.endsInSlash, String.toList_append] at hslash
      exact of_decide_eq_false hslash (List.getLast?_concat ..)
  have hends := Path.endsInSlash_join (Job.absolute disk.here) hne hrelative
  rw [find] at h ⊢
  obtain ⟨t, htarget, hrest⟩ := eq_ok_of_bind h
  rw [target_of_target_join hhere hrelative hne htarget, ok_bind]
  cases t with
  | directory place => exact hrest
  | name parent last =>
      rw [findAt, hends] at hrest
      exact hrest

end Disk

end Files

end Stencil
