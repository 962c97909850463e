import Stencil.Path

/-! # Names on a path

    Joining puts the names of two paths one after the other (`names_join`).  A
    path and its parents begin with the same names: what is left of a path, when
    its end is cut off, has its first names (`names_of_mem_ancestors`).  All but the
    last name are left, and single dots are not counted (`parent?_of_last`). -/

namespace Stencil.Path

/-! ## Names of a text -/

/-- The names on a path given as characters. -/
def nameParts (cs : List Char) : List String :=
  ((splitSlash cs).filter fun part => !part.isEmpty).map String.ofList

theorem names_eq_nameParts (path : String) : names path = nameParts path.toList := rfl

theorem neither_dots_iff {name : String} :
    ¬ (name = "." || name = "..") = true ↔ name ≠ "." ∧ name ≠ ".." := by
  rw [Bool.or_eq_true, decide_eq_true_eq, decide_eq_true_eq, not_or]

/-- There is always a part. -/
theorem splitSlash_ne_nil (cs : List Char) : splitSlash cs ≠ [] := by
  cases cs with
  | nil => exact List.cons_ne_nil _ _
  | cons c cs =>
      rw [splitSlash]
      by_cases hc : c = '/'
      · rw [if_pos hc]
        exact List.cons_ne_nil _ _
      · rw [if_neg hc]
        cases splitSlash cs <;> exact List.cons_ne_nil _ _

/-- A slash parts a text. -/
theorem splitSlash_append (cs ds : List Char) :
    splitSlash (cs ++ '/' :: ds) = splitSlash cs ++ splitSlash ds := by
  induction cs with
  | nil => simp [splitSlash]
  | cons c cs ih =>
      rw [List.cons_append, splitSlash, splitSlash, ih]
      by_cases hc : c = '/'
      · rw [if_pos hc, if_pos hc]
        rfl
      · rw [if_neg hc, if_neg hc]
        cases hsplit : splitSlash cs with
        | nil => exact absurd hsplit (splitSlash_ne_nil cs)
        | cons part parts => rfl

theorem splitSlash_of_not_mem {cs : List Char} (h : '/' ∉ cs) : splitSlash cs = [cs] := by
  induction cs with
  | nil => rfl
  | cons c cs ih =>
      rw [List.mem_cons, not_or] at h
      rw [splitSlash, if_neg (Ne.symm h.1), ih h.2]

@[simp] theorem nameParts_append (cs ds : List Char) :
    nameParts (cs ++ '/' :: ds) = nameParts cs ++ nameParts ds := by
  rw [nameParts, nameParts, nameParts, splitSlash_append, List.filter_append, List.map_append]

theorem nameParts_of_not_mem {cs : List Char} (hne : cs ≠ []) (h : '/' ∉ cs) :
    nameParts cs = [String.ofList cs] := by
  cases cs with
  | nil => exact absurd rfl hne
  | cons c cs =>
      rw [nameParts, splitSlash_of_not_mem h]
      rfl

theorem names_of_not_mem {name : String} (hne : name ≠ "") (h : '/' ∉ name.toList) :
    names name = [name] := by
  have hne' : name.toList ≠ [] := fun hnil => hne (String.toList_eq_nil_iff.mp hnil)
  rw [names_eq_nameParts, nameParts_of_not_mem hne' h, String.ofList_toList]

/-- Names with slashes between them are the names on the path that they make up. -/
theorem names_intercalate {parts : List String} (h : ∀ part ∈ parts, part ≠ "" ∧ '/' ∉ part.toList) :
    names ("/".intercalate parts) = parts := by
  induction parts with
  | nil => rfl
  | cons part parts ih =>
      obtain ⟨hne, hslash⟩ := h part (List.mem_cons_self ..)
      cases parts with
      | nil => rw [String.intercalate_singleton, names_of_not_mem hne hslash]
      | cons next parts =>
          have hrest := ih fun other hother => h other (List.mem_cons_of_mem _ hother)
          rw [names_eq_nameParts] at hrest
          rw [String.intercalate_cons_cons, names_eq_nameParts, String.toList_append,
            String.toList_append, List.append_assoc]
          refine (nameParts_append part.toList _).trans ?_
          rw [← names_eq_nameParts, names_of_not_mem hne hslash]
          exact congrArg _ hrest

/-- A relative path that is not empty has a name. -/
theorem names_ne_nil {path : String} (hne : path ≠ "") (h : isAbsolute path = false) :
    names path ≠ [] := by
  obtain ⟨c, cs, hpath⟩ :=
    List.exists_cons_of_ne_nil fun hnil => hne (String.toList_eq_nil_iff.mp hnil)
  have hc : c ≠ '/' := by
    rintro rfl
    rw [isAbsolute, hpath] at h
    cases h
  rw [names_eq_nameParts, hpath, nameParts, splitSlash, if_neg hc]
  cases splitSlash cs <;> exact List.cons_ne_nil _ _

/-! ## Joined paths -/

/-- Joining a relative path puts its names after those of the base. -/
theorem names_join {path : String} (base : String) (h : isAbsolute path = false) :
    names (join base path) = names base ++ names path := by
  rw [join, h, if_neg Bool.false_ne_true]
  by_cases hempty : base = ""
  · subst hempty
    have hend : ("".isEmpty || endsInSlash "") = true := rfl
    rw [if_pos hend, String.empty_append]
    rfl
  by_cases hslash : endsInSlash base = true
  · obtain ⟨front, hfront⟩ := List.getLast?_eq_some_iff.mp (of_decide_eq_true hslash)
    rw [if_pos (by rw [hslash, Bool.or_true]), names_eq_nameParts, names_eq_nameParts,
      names_eq_nameParts, String.toList_append, hfront, List.append_assoc,
      List.singleton_append, nameParts_append, nameParts_append]
    exact congrArg (· ++ _) (List.append_nil _).symm
  · have hneither : ¬ (base.isEmpty || endsInSlash base) = true := by
      rw [Bool.or_eq_true, not_or]
      exact ⟨fun he => hempty (String.isEmpty_iff.mp he), hslash⟩
    rw [if_neg hneither, names_eq_nameParts, names_eq_nameParts, names_eq_nameParts,
      String.toList_append, String.toList_append, List.append_assoc]
    exact nameParts_append _ _

/-- A joined path has no characters but those of its parts and a slash. -/
theorem of_mem_join {base path : String} {c : Char} (h : c ∈ (join base path).toList) :
    c = '/' ∨ c ∈ base.toList ∨ c ∈ path.toList := by
  have hslash : c ∈ "/".toList → c = '/' := List.mem_singleton.mp
  rw [join] at h
  split at h
  · exact Or.inr (Or.inr h)
  split at h
  · rw [String.toList_append, List.mem_append] at h
    exact Or.inr h
  · rw [String.toList_append, String.toList_append, List.mem_append, List.mem_append] at h
    rcases h with (hbase | hc) | hpath
    · exact Or.inr (Or.inl hbase)
    · exact Or.inl (hslash hc)
    · exact Or.inr (Or.inr hpath)

/-- A joined path is no longer than its parts and a slash. -/
theorem utf8ByteSize_join_le (base path : String) :
    (join base path).utf8ByteSize ≤ base.utf8ByteSize + 1 + path.utf8ByteSize := by
  have hslash : "/".utf8ByteSize = 1 := rfl
  rw [join]
  split
  · omega
  split
  · rw [String.utf8ByteSize_append]
    omega
  · rw [String.utf8ByteSize_append, String.utf8ByteSize_append]
    omega

/-- What begins with a text without a slash is relative. -/
theorem isAbsolute_append_of_not_mem {front : String} (hne : front ≠ "")
    (h : '/' ∉ front.toList) (back : String) : isAbsolute (front ++ back) = false := by
  obtain ⟨c, cs, hfront⟩ := List.exists_cons_of_ne_nil
    (fun hnil => hne (String.toList_eq_nil_iff.mp hnil))
  rw [isAbsolute, decide_eq_false_iff_not, String.toList_append, hfront]
  rw [hfront] at h
  exact fun hhead => h (Option.some.inj hhead ▸ List.mem_cons_self ..)

/-- Joining a relative path starts where the base does. -/
theorem isAbsolute_join {path : String} (base : String) (h : isAbsolute path = false) :
    isAbsolute (join base path) = isAbsolute base := by
  rw [join, h, if_neg Bool.false_ne_true]
  by_cases hempty : base = ""
  · subst hempty
    have hend : ("".isEmpty || endsInSlash "") = true := rfl
    rw [if_pos hend, String.empty_append, h]
    rfl
  · obtain ⟨c, cs, hbase⟩ := List.exists_cons_of_ne_nil
      (fun hnil => hempty (String.toList_eq_nil_iff.mp hnil))
    by_cases hend : (base.isEmpty || endsInSlash base) = true
    · rw [if_pos hend, isAbsolute, isAbsolute, String.toList_append, hbase]
      rfl
    · rw [if_neg hend, isAbsolute, isAbsolute, String.toList_append, String.toList_append, hbase]
      rfl

/-- Joining to a relative base loses nothing of a path. -/
theorem join_inj {base path path' : String} (hbase : isAbsolute base = false)
    (h : join base path = join base path') : path = path' := by
  have habsolute : ∀ path : String, isAbsolute (join base path) = isAbsolute path := by
    intro path
    cases hpath : isAbsolute path with
    | true => rw [join, if_pos hpath, hpath]
    | false => rw [isAbsolute_join base hpath, hbase]
  have hsame : isAbsolute path = isAbsolute path' := by
    rw [← habsolute path, ← habsolute path', h]
  rw [join, join, hsame] at h
  split at h
  · exact h
  split at h
  · exact String.append_right_inj base |>.mp h
  · exact String.append_right_inj _ |>.mp h

/-- Joining a relative path that is not empty ends as the path does. -/
theorem endsInSlash_join {path : String} (base : String) (hne : path ≠ "")
    (h : isAbsolute path = false) : endsInSlash (join base path) = endsInSlash path := by
  have hlast : ∀ front : List Char, (front ++ path.toList).getLast? = path.toList.getLast? := by
    intro front
    rw [List.getLast?_append]
    cases hend : path.toList.getLast? with
    | none => exact absurd (String.toList_eq_nil_iff.mp (List.getLast?_eq_none_iff.mp hend)) hne
    | some c => rfl
  rw [join, h, if_neg Bool.false_ne_true]
  by_cases hend : (base.isEmpty || endsInSlash base) = true
  · rw [if_pos hend, endsInSlash, String.toList_append, hlast]
    rfl
  · rw [if_neg hend, endsInSlash, String.toList_append, hlast]
    rfl

/-! ## Parents -/

/-- Whether a reversed text is what is left when another one is cut at a slash. -/
def Cut (rev left : List Char) : Prop :=
  left = [] ∨ left = rev ∨ ∃ more : List Char, rev = more ++ '/' :: left

/-- Cutting twice is cutting. -/
theorem Cut.trans {rev left last : List Char} (h : Cut rev left) (h' : Cut left last) :
    Cut rev last := by
  rcases h' with rfl | rfl | ⟨more', rfl⟩
  · exact Or.inl rfl
  · exact h
  · rcases h with hnil | rfl | ⟨more, rfl⟩
    · exact absurd hnil (by simp)
    · exact Or.inr (Or.inr ⟨more', rfl⟩)
    · refine Or.inr (Or.inr ⟨more ++ '/' :: more', ?_⟩)
      rw [List.append_assoc, List.cons_append]

/-- Stripping the idle end is cutting. -/
theorem cut_stripIdle (rev : List Char) : Cut rev (stripIdle rev) := by
  fun_induction stripIdle rev with
  | case1 rest ih =>
      have hslash : Cut ('/' :: rest) rest := Or.inr (Or.inr ⟨[], rfl⟩)
      exact hslash.trans ih
  | case2 => exact Or.inl rfl
  | case3 rest ih =>
      have hdot : Cut ('.' :: '/' :: rest) rest := Or.inr (Or.inr ⟨['.'], rfl⟩)
      exact hdot.trans ih
  | case4 rev => exact Or.inr (Or.inl rfl)

/-- A reversed body is one word, or a word after a slash. -/
theorem dropName_spec (rev : List Char) :
    ('/' ∉ rev ∧ dropName rev = [])
      ∨ ∃ word : List Char, '/' ∉ word ∧ rev = word ++ '/' :: dropName rev := by
  induction rev with
  | nil => exact Or.inl ⟨List.not_mem_nil, rfl⟩
  | cons c rev ih =>
      by_cases hc : c = '/'
      · subst hc
        exact Or.inr ⟨[], List.not_mem_nil, rfl⟩
      · have hdrop : dropName (c :: rev) = dropName rev := by
          rw [dropName, List.dropWhile_cons_of_pos (by simpa using hc), dropName]
        rw [hdrop]
        rcases ih with ⟨hmem, hnil⟩ | ⟨word, hmem, hword⟩
        · refine Or.inl ⟨?_, hnil⟩
          rw [List.mem_cons, not_or]
          exact ⟨Ne.symm hc, hmem⟩
        · refine Or.inr ⟨c :: word, ?_, congrArg (c :: ·) hword⟩
          rw [List.mem_cons, not_or]
          exact ⟨Ne.symm hc, hmem⟩

theorem cut_dropName (rev : List Char) : Cut rev (dropName rev) := by
  rcases dropName_spec rev with ⟨-, hnil⟩ | ⟨word, -, hrev⟩
  · exact Or.inl hnil
  · exact Or.inr (Or.inr ⟨word, hrev⟩)

theorem headBody_append (cs : List Char) : (headBody cs).1 ++ (headBody cs).2 = cs := by
  fun_cases headBody cs <;> rfl

/-- A text that ends in something else than a slash has a name. -/
theorem nameParts_ne_nil {cs : List Char} (hne : cs ≠ []) (h : cs.getLast? ≠ some '/') :
    nameParts cs ≠ [] := by
  induction cs with
  | nil => exact absurd rfl hne
  | cons c cs ih =>
      by_cases hc : c = '/'
      · subst hc
        cases cs with
        | nil => exact absurd rfl h
        | cons d cs =>
            rw [show '/' :: d :: cs = [] ++ '/' :: d :: cs from rfl, nameParts_append]
            exact ih (List.cons_ne_nil _ _) h
      · rw [nameParts, splitSlash, if_neg hc]
        cases splitSlash cs <;> exact List.cons_ne_nil _ _

/-- The names of a path are those of what is left of it and more names; if a part
    that does not end in a slash is cut off, there is one more at least. -/
theorem nameParts_of_cut {cs left : List Char} (h : Cut (headBody cs).2.reverse left) :
    ∃ more : List String, nameParts cs = nameParts ((headBody cs).1 ++ left.reverse) ++ more
      ∧ ((headBody cs).1 ++ left.reverse ≠ cs → cs.getLast? ≠ some '/' → more ≠ []) := by
  have hcs := headBody_append cs
  rcases h with rfl | rfl | ⟨cut, hcut⟩
  · fun_cases headBody cs with
    | case1 body =>
        refine ⟨nameParts ('/' :: body), rfl, fun _ hlast => ?_⟩
        exact nameParts_ne_nil (List.cons_ne_nil _ _) hlast
    | case2 => exact ⟨[], rfl, fun hsame => absurd rfl hsame⟩
    | case3 body =>
        refine ⟨nameParts body, nameParts_append ['.'] body, fun _ hlast => ?_⟩
        cases body with
        | nil => exact absurd rfl hlast
        | cons c body => exact nameParts_ne_nil (List.cons_ne_nil _ _) hlast
    | case4 body =>
        refine ⟨nameParts cs, rfl, fun hsame hlast => ?_⟩
        exact nameParts_ne_nil (fun hnil => hsame hnil.symm) hlast
  · rw [List.reverse_reverse, hcs]
    exact ⟨[], (List.append_nil _).symm, fun hsame => absurd rfl hsame⟩
  · have hbody : (headBody cs).2 = left.reverse ++ '/' :: cut.reverse := by
      rw [← List.reverse_reverse (headBody cs).2, hcut]
      simp
    rw [hbody, ← List.append_assoc] at hcs
    refine ⟨nameParts cut.reverse, ?_, fun _ hlast => ?_⟩
    · rw [← nameParts_append, hcs]
    · rw [← hcs, List.getLast?_append] at hlast
      cases hcut' : cut.reverse with
      | nil =>
          rw [hcut'] at hlast
          exact absurd rfl hlast
      | cons c rest =>
          rw [hcut'] at hlast
          exact nameParts_ne_nil (List.cons_ne_nil _ _) hlast

/-- A path starts at the root if its head is a slash. -/
theorem head?_eq_slash_iff (cs : List Char) : cs.head? = some '/' ↔ (headBody cs).1 = ['/'] := by
  fun_cases headBody cs with
  | case1 body => exact ⟨fun _ => rfl, fun _ => rfl⟩
  | case2 => simp
  | case3 body => simp
  | case4 body hslash _ _ =>
      constructor
      · intro h
        cases cs with
        | nil => cases h
        | cons c cs =>
            cases Option.some.inj h
            exact absurd rfl (hslash cs)
      · intro h
        cases h

/-- What is left of a body, after its head, starts where the path does. -/
theorem head?_eq_slash_of_cut {cs left : List Char} (h : Cut (headBody cs).2.reverse left) :
    ((headBody cs).1 ++ left.reverse).head? = some '/' ↔ cs.head? = some '/' := by
  have hcs := headBody_append cs
  have hfirst := head?_eq_slash_iff cs
  cases hhead : (headBody cs).1 with
  | cons c head =>
      rw [hhead] at hcs
      rw [← hcs]
      exact Iff.rfl
  | nil =>
      rw [hhead, List.nil_append] at hcs
      rw [hhead] at hfirst
      have hrelative : ¬ cs.head? = some '/' := fun hslash => by cases hfirst.mp hslash
      rw [hcs] at h
      rw [List.nil_append]
      rcases h with rfl | rfl | ⟨more, hmore⟩
      · exact ⟨fun hnil => (by cases hnil), fun hslash => absurd hslash hrelative⟩
      · rw [List.reverse_reverse]
      · have hsplit : cs = left.reverse ++ '/' :: more.reverse := by
          rw [← List.reverse_reverse cs, hmore]
          simp
        cases hleft : left.reverse with
        | nil => exact ⟨fun hnil => (by cases hnil), fun hslash => absurd hslash hrelative⟩
        | cons c rest =>
            rw [hsplit, hleft]
            exact Iff.rfl

/-- The names of a path are those of its parent and more names, one more at least
    if the path does not end in a slash; and the parent starts where the path
    does. -/
theorem names_parent? {path up : String} (h : parent? path = some up) :
    isAbsolute up = isAbsolute path
      ∧ ∃ more : List String, names path = names up ++ more
        ∧ (endsInSlash path = false → more ≠ []) := by
  have hshort := length_parent?_lt h
  simp only [parent?] at h
  split at h
  · split at h
    next hhead =>
      cases h
      have hrelative : isAbsolute path = false := by
        rw [isAbsolute, decide_eq_false_iff_not, head?_eq_slash_iff, hhead]
        decide
      refine ⟨hrelative.symm, names path, rfl, fun hslash => ?_⟩
      refine nameParts_ne_nil (fun hnil => ?_) (of_decide_eq_false hslash)
      rw [hnil] at hshort
      exact absurd hshort (Nat.not_lt_zero _)
    next => cases h
  · next hne =>
      cases h
      have hcut := ((cut_stripIdle (headBody path.toList).2.reverse).trans
        (cut_dropName _)).trans (cut_stripIdle _)
      obtain ⟨more, hmore, hstrict⟩ := nameParts_of_cut hcut
      constructor
      · rw [isAbsolute, isAbsolute, String.toList_ofList, decide_eq_decide]
        exact head?_eq_slash_of_cut hcut
      · refine ⟨more, ?_, fun hslash => hstrict (fun hsame => ?_) (of_decide_eq_false hslash)⟩
        · rw [names_eq_nameParts, names_eq_nameParts, String.toList_ofList]
          exact hmore
        · rw [String.toList_ofList, hsame] at hshort
          exact absurd hshort (Nat.lt_irrefl _)

theorem ancestors_cons {path : String} (h : path ≠ "") :
    ∃ rest : List String, ancestors path = path :: rest := by
  rw [ancestors, if_neg (fun hempty => h (String.isEmpty_iff.mp hempty))]
  exact ⟨_, rfl⟩

/-- Its parent and the ancestors of that follow. -/
theorem ancestors_of_parent? {path up : String} (h : parent? path = some up) :
    ancestors path = path :: ancestors up := by
  have hne : ¬ path.isEmpty = true := by
    intro hempty
    rw [String.isEmpty_iff.mp hempty] at h
    cases h
  rw [ancestors, if_neg hne]
  split
  next other hother => cases hother.symm.trans h; rfl
  next hnone => cases hnone.symm.trans h

/-- A path and its parents begin with the same names, at the same start. -/
theorem names_of_mem_ancestors {path up : String} (h : up ∈ ancestors path) :
    isAbsolute up = isAbsolute path ∧ ∃ more : List String, names path = names up ++ more := by
  fun_induction ancestors path with
  | case1 path hempty => cases h
  | case2 path hempty ih =>
      rcases List.mem_cons.mp h with rfl | hmem
      · exact ⟨rfl, [], (List.append_nil _).symm⟩
      · split at hmem
        next parent hparent =>
          obtain ⟨hstart, more, hmore⟩ := ih parent hparent hmem
          obtain ⟨hstart', more', hmore', -⟩ := names_parent? hparent
          refine ⟨hstart.trans hstart', more ++ more', ?_⟩
          rw [hmore', hmore, List.append_assoc]
        next => cases hmem

/-! ## Idle ends -/

/-- Whether all names are single dots. -/
def OnlyDots (parts : List String) : Prop := ∀ part ∈ parts, part = "."

/-- Whether a path has nothing idle at its end, but for single dots alone. -/
def Settled (path : String) : Prop :=
  OnlyDots (names path) ∨ ∃ last : String, (names path).getLast? = some last ∧ last ≠ "."

/-- Whether a reversed body may stand after a head: a leading dot is a whole name. -/
def Fits (head rev : List Char) : Prop :=
  (head = [] ∨ head = ['/']) ∨ head = ['.'] ∧ (rev = [] ∨ rev.getLast? = some '/')

theorem fits_headBody (cs : List Char) : Fits (headBody cs).1 (headBody cs).2.reverse := by
  fun_cases headBody cs with
  | case1 body => exact Or.inl (Or.inr rfl)
  | case2 => exact Or.inr ⟨rfl, Or.inl rfl⟩
  | case3 body => exact Or.inr ⟨rfl, Or.inr (by simp)⟩
  | case4 body => exact Or.inl (Or.inl rfl)

theorem Cut.suffix {rev left : List Char} (h : Cut rev left) : left <:+ rev := by
  rcases h with rfl | rfl | ⟨more, rfl⟩
  · exact List.nil_suffix
  · exact List.suffix_refl _
  · exact ⟨more ++ ['/'], by simp⟩

/-- What is left after a cut stands after the same head. -/
theorem Fits.of_cut {head rev left : List Char} (h : Fits head rev) (hcut : Cut rev left) :
    Fits head left := by
  rcases h with hhead | ⟨hhead, hrev⟩
  · exact Or.inl hhead
  refine Or.inr ⟨hhead, ?_⟩
  obtain ⟨more, rfl⟩ := hcut.suffix
  cases left with
  | nil => exact Or.inl rfl
  | cons c left =>
      rcases hrev with hnil | hslash
      · exact absurd hnil (by simp)
      · rw [List.getLast?_append, List.getLast?_cons] at hslash
        rw [List.getLast?_cons]
        exact Or.inr hslash

/-- The idle end of a path has no names but dots. -/
theorem nameParts_stripIdle {head rev : List Char} (h : Fits head rev) :
    ∃ dots : List String, OnlyDots dots
      ∧ nameParts (head ++ rev.reverse)
        = nameParts (head ++ (stripIdle rev).reverse) ++ dots := by
  fun_induction stripIdle rev with
  | case1 rest ih =>
      obtain ⟨dots, hdots, hnames⟩ := ih (h.of_cut (Or.inr (Or.inr ⟨[], rfl⟩)))
      refine ⟨dots, hdots, ?_⟩
      rw [List.reverse_cons, ← List.append_assoc, nameParts_append, ← hnames]
      exact List.append_nil _
  | case2 =>
      refine ⟨["."], by simp [OnlyDots], ?_⟩
      rcases h with (rfl | rfl) | ⟨-, hnil | hslash⟩
      · rfl
      · rfl
      · cases hnil
      · exact absurd hslash (by decide)
  | case3 rest ih =>
      obtain ⟨dots, hdots, hnames⟩ := ih (h.of_cut (Or.inr (Or.inr ⟨['.'], rfl⟩)))
      refine ⟨dots ++ ["."], ?_, ?_⟩
      · intro part hpart
        rcases List.mem_append.mp hpart with hmem | hmem
        · exact hdots part hmem
        · exact List.mem_singleton.mp hmem
      · have htext : head ++ ('.' :: '/' :: rest).reverse
            = (head ++ rest.reverse) ++ '/' :: ['.'] := by simp
        rw [htext, nameParts_append, hnames, List.append_assoc]
        rfl
  | case4 rev => exact ⟨[], fun part hpart => (by cases hpart), (List.append_nil _).symm⟩

theorem stripIdle_stripIdle (rev : List Char) : stripIdle (stripIdle rev) = stripIdle rev := by
  fun_induction stripIdle rev with
  | case1 rest ih => exact ih
  | case2 => rfl
  | case3 rest ih => exact ih
  | case4 rev hslash hdot hdots => rw [stripIdle] <;> assumption

/-- Dropping the last name of a stripped body takes away one name that is no dot. -/
theorem nameParts_dropName {head rev : List Char} (h : Fits head rev)
    (hstrip : stripIdle rev = rev) (hne : rev ≠ []) :
    ∃ name : String, name ≠ "."
      ∧ nameParts (head ++ rev.reverse)
        = nameParts (head ++ (dropName rev).reverse) ++ [name] := by
  -- a stripped body is as long as it was
  have hlonger : ∀ rest : List Char, rest.length < rev.length →
      stripIdle rev ≠ stripIdle rest := by
    intro rest hlen hsame
    have hle := length_stripIdle_le rest
    rw [← hsame, hstrip] at hle
    omega
  have hname : ∀ word : List Char, word ≠ ['.'] → String.ofList word.reverse ≠ "." := by
    intro word hword hdot
    have hlist : word.reverse = ['.'] := by
      rw [← String.toList_ofList (l := word.reverse), hdot]
      rfl
    exact hword (List.reverse_eq_cons_iff.mp hlist)
  rcases dropName_spec rev with ⟨hslash, hdrop⟩ | ⟨word, hslash, hrev⟩
  · refine ⟨String.ofList rev.reverse, hname rev ?_, ?_⟩
    · rintro rfl
      exact hne hstrip.symm
    · have hparts : nameParts rev.reverse = [String.ofList rev.reverse] :=
        nameParts_of_not_mem (by simpa using hne) (by simpa using hslash)
      rw [hdrop]
      rcases h with (rfl | rfl) | ⟨-, hnil | hlast⟩
      · exact hparts
      · exact (nameParts_append [] rev.reverse).trans (congrArg _ hparts)
      · exact absurd hnil hne
      · exact absurd (List.mem_of_getLast? hlast) hslash
  · have hsame := congrArg stripIdle hrev
    have hword : word ≠ [] := by
      rintro rfl
      exact hlonger (dropName rev) (length_dropName_lt hne) hsame
    have hdot : word ≠ ['.'] := by
      rintro rfl
      exact hlonger (dropName rev) (length_dropName_lt hne) hsame
    have hparts : nameParts word.reverse = [String.ofList word.reverse] :=
      nameParts_of_not_mem (by simpa using hword) (by simpa using hslash)
    have htext : rev.reverse = (dropName rev).reverse ++ '/' :: word.reverse := by
      have hreverse := congrArg List.reverse hrev
      rwa [List.reverse_append, List.reverse_cons, List.append_assoc] at hreverse
    refine ⟨String.ofList word.reverse, hname word hdot, ?_⟩
    rw [htext, ← List.append_assoc, nameParts_append, hparts]

/-- A head alone has no name but a dot. -/
theorem Fits.onlyDots {head rev : List Char} (h : Fits head rev) :
    OnlyDots (nameParts (head ++ [].reverse)) := by
  rcases h with (rfl | rfl) | ⟨rfl, -⟩
  · intro part hpart; cases hpart
  · intro part hpart; cases hpart
  · simp [OnlyDots, nameParts, splitSlash]

/-- A path whose last name is no dot has a parent, which is settled and has the other
    names, up to dots at their end. -/
theorem parent?_of_last {path last : String} (hlast : (names path).getLast? = some last)
    (hdot : last ≠ ".") :
    ∃ (up : String) (dots : List String), parent? path = some up ∧ OnlyDots dots
      ∧ names path = names up ++ (dots ++ [last]) ∧ Settled up := by
  have hfits := fits_headBody path.toList
  have hcut := cut_stripIdle (headBody path.toList).2.reverse
  obtain ⟨idle, hidle, hstripped⟩ := nameParts_stripIdle hfits
  rw [List.reverse_reverse, headBody_append, ← names_eq_nameParts] at hstripped
  -- there is more than the idle end
  have hbody : stripIdle (headBody path.toList).2.reverse ≠ [] := by
    intro hnil
    rw [hnil] at hstripped
    have hmem := List.mem_of_getLast? hlast
    rw [hstripped] at hmem
    rcases List.mem_append.mp hmem with hhead | hend
    · exact hdot (hfits.onlyDots last hhead)
    · exact hdot (hidle last hend)
  obtain ⟨name, hname, hdropped⟩ :=
    nameParts_dropName (hfits.of_cut hcut) (stripIdle_stripIdle _) hbody
  have hfits' := (hfits.of_cut hcut).of_cut (cut_dropName _)
  obtain ⟨dots, hdots, hup⟩ := nameParts_stripIdle hfits'
  rw [hdropped, hup] at hstripped
  -- so nothing idle stands at the end, and the last name is the one that was dropped
  have hnothing : idle = [] := by
    cases hend : idle.getLast? with
    | none => exact List.getLast?_eq_none_iff.mp hend
    | some part =>
        rw [hstripped, List.getLast?_append, hend] at hlast
        cases hlast
        exact absurd (hidle last (List.mem_of_getLast? hend)) hdot
  subst hnothing
  rw [List.append_nil] at hstripped
  obtain rfl : name = last := by
    rw [hstripped, List.getLast?_concat] at hlast
    exact Option.some.inj hlast
  refine ⟨String.ofList ((headBody path.toList).1
    ++ (stripIdle (dropName (stripIdle (headBody path.toList).2.reverse))).reverse), dots,
    ?_, hdots, ?_, ?_⟩
  · simp only [parent?]
  · rw [hstripped, names_eq_nameParts, String.toList_ofList, List.append_assoc]
  · by_cases hnil : stripIdle (dropName (stripIdle (headBody path.toList).2.reverse)) = []
    · refine Or.inl ?_
      rw [names_eq_nameParts, String.toList_ofList, hnil]
      exact hfits.onlyDots
    · obtain ⟨part, hpart, hparts⟩ := nameParts_dropName (hfits'.of_cut (cut_stripIdle _))
        (stripIdle_stripIdle _) hnil
      refine Or.inr ⟨part, ?_, hpart⟩
      rw [names_eq_nameParts, String.toList_ofList, hparts, List.getLast?_concat]

/-! ## First and last names -/

/-- The first part of a text is what stands before its first slash. -/
theorem head?_splitSlash (cs : List Char) :
    (splitSlash cs).head? = some (cs.takeWhile (· ≠ '/')) := by
  induction cs with
  | nil => rfl
  | cons c cs ih =>
      rw [splitSlash]
      by_cases hc : c = '/'
      · rw [if_pos hc, List.takeWhile_cons_of_neg (by simpa using hc)]
        rfl
      · rw [if_neg hc, List.takeWhile_cons_of_pos (by simpa using hc)]
        cases hsplit : splitSlash cs with
        | nil => exact absurd hsplit (splitSlash_ne_nil cs)
        | cons part parts =>
            rw [hsplit] at ih
            rw [← Option.some.inj ih]
            rfl

/-- What stands before a text, without a slash, goes into its first part. -/
theorem splitSlash_append_of_not_mem {front cs part : List Char} {parts : List (List Char)}
    (h : '/' ∉ front) (hcs : splitSlash cs = part :: parts) :
    splitSlash (front ++ cs) = (front ++ part) :: parts := by
  induction front with
  | nil => exact hcs
  | cons c front ih =>
      rw [List.mem_cons, not_or] at h
      rw [List.cons_append, splitSlash, if_neg (Ne.symm h.1), ih h.2]
      rfl

/-- What stands before a text, without a slash, goes into its first name; the other names
    stay. -/
theorem nameParts_append_of_not_mem (cs : List Char) : ∃ rest : List String,
    ∀ front : List Char, front ≠ [] → '/' ∉ front →
      nameParts (front ++ cs) = String.ofList (front ++ cs.takeWhile (· ≠ '/')) :: rest := by
  obtain ⟨parts, hparts⟩ := List.head?_eq_some_iff.mp (head?_splitSlash cs)
  refine ⟨(parts.filter fun part => !part.isEmpty).map String.ofList, ?_⟩
  intro front hne h
  rw [nameParts, splitSlash_append_of_not_mem h hparts, List.filter_cons_of_pos]
  · rfl
  · obtain ⟨c, front, rfl⟩ := List.exists_cons_of_ne_nil hne
    rfl

/-- What stands after a text, without a slash, goes into its last name; the other names
    stay. -/
theorem nameParts_append_ending (cs : List Char) : ∃ (parts : List String) (word : List Char),
    ∀ back : List Char, back ≠ [] → '/' ∉ back →
      nameParts (cs ++ back) = parts ++ [String.ofList (word ++ back)] := by
  have hword : ∀ word : List Char, '/' ∉ word → ∀ back : List Char, back ≠ [] → '/' ∉ back →
      nameParts (word ++ back) = [String.ofList (word ++ back)] := by
    intro word hmem back hne h
    refine nameParts_of_not_mem (List.append_ne_nil_of_right_ne_nil _ hne) ?_
    rw [List.mem_append, not_or]
    exact ⟨hmem, h⟩
  rcases dropName_spec cs.reverse with ⟨hslash, -⟩ | ⟨word, hslash, hrev⟩
  · rw [List.mem_reverse] at hslash
    exact ⟨[], cs, hword cs hslash⟩
  · have hcs := congrArg List.reverse hrev
    rw [List.reverse_reverse, List.reverse_append, List.reverse_cons, List.append_assoc,
      List.singleton_append] at hcs
    generalize (dropName cs.reverse).reverse = front at hcs
    subst hcs
    rw [← List.mem_reverse] at hslash
    refine ⟨nameParts front, word.reverse, fun back hne h => ?_⟩
    rw [List.append_assoc, List.cons_append, nameParts_append, hword _ hslash back hne h]

/-- The last name of a joined path is that of what was joined. -/
theorem getLast?_names_join {path last : String} (base : String)
    (h : (names path).getLast? = some last) : (names (join base path)).getLast? = some last := by
  cases habsolute : isAbsolute path with
  | true =>
      rw [join, habsolute, if_pos rfl]
      exact h
  | false =>
      rw [names_join base habsolute, List.getLast?_append, h]
      rfl

/-- A joined path that has a name ends as what was joined does. -/
theorem endsInSlash_join_of_ne {path : String} (base : String) (hne : path ≠ "") :
    endsInSlash (join base path) = endsInSlash path := by
  cases habsolute : isAbsolute path with
  | true => rw [join, habsolute, if_pos rfl]
  | false => exact endsInSlash_join base hne habsolute

/-- A parent is the beginning of its path. -/
theorem toList_parent?_prefix {path up : String} (h : parent? path = some up) :
    up.toList <+: path.toList := by
  simp only [parent?] at h
  split at h
  · split at h
    next => cases h; exact List.nil_prefix
    next => cases h
  · next hne =>
      cases h
      have hcut := ((cut_stripIdle (headBody path.toList).2.reverse).trans
        (cut_dropName _)).trans (cut_stripIdle _)
      have hsuffix := List.reverse_prefix.mpr hcut.suffix
      rw [List.reverse_reverse] at hsuffix
      rw [String.toList_ofList]
      conv => rhs; rw [← headBody_append path.toList]
      exact (List.prefix_append_right_inj _).mpr hsuffix

end Stencil.Path
