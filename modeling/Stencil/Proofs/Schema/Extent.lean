import Stencil.Proofs.Schema.Passage

/-! # Where blocks stand

    A scan only finds blocks that are written in the text: at the offset of its
    header stands the keyword, and from there to the closing brace the block as
    `Written` has it (`Scan.Reads.found`).  When that brace has been read, the
    scan is between blocks again, as at the start.

    What a place says about the text before it (`Place.Follows`) is the invariant
    of the single steps. -/

namespace Stencil.Schema

open Stencil.Text (isBlank)

/-! ## Places in a text -/

/-- Whether a text ends in a word that starts at an offset. -/
def EndsIn (start : Nat) (word t : List Char) : Prop :=
  IsName word ∧ ∃ before : List Char, width before = start ∧ t = before ++ word

/-- Whether a text ends in a keyword, a gap and a name. -/
def EndsInLabel (kind : BlockKind) (start nameStart : Nat) (name t : List Char) : Prop :=
  IsName name ∧ ∃ before gap : List Char, EndsIn start kind.keyword.toList before
    ∧ gap ≠ [] ∧ IsGap gap ∧ width (before ++ gap) = nameStart
    ∧ t = before ++ (gap ++ name)

/-- What a place says about the text before it. -/
def Place.Follows (t : List Char) : Place → Prop
  | .between => True
  | .word start letters => EndsIn start letters.reverse t
  | .keyword kind start => ∃ before gap : List Char,
      EndsIn start kind.keyword.toList before ∧ gap ≠ [] ∧ IsGap gap ∧ t = before ++ gap
  | .name kind start nameStart letters => EndsInLabel kind start nameStart letters.reverse t
  | .header kind start nameStart label => ∃ before gap : List Char,
      EndsInLabel kind start nameStart label.toList before
        ∧ gap ≠ [] ∧ IsGap gap ∧ t = before ++ gap
  | .body opened _ text => ∃ (nameStart : Nat) (before gap : List Char),
      EndsInLabel opened.kind opened.offset nameStart opened.name.toList before
        ∧ IsGap gap ∧ t = before ++ (gap ++ '{' :: text.reverse)

variable {start nameStart : Nat} {kind : BlockKind} {word name t gap : List Char} {c : Char}

theorem IsName.snoc (h : IsName word) (hc : isNameChar c = true) : IsName (word ++ [c]) := by
  refine ⟨List.append_ne_nil_of_left_ne_nil h.1 _, ?_⟩
  intro d hd
  rcases List.mem_append.mp hd with hd | hd
  · exact h.2 d hd
  · exact List.mem_singleton.mp hd ▸ hc

theorem IsGap.snoc (h : IsGap gap) (hc : isBlank c = true) : IsGap (gap ++ [c]) := by
  intro d hd
  rcases List.mem_append.mp hd with hd | hd
  · exact h d hd
  · exact List.mem_singleton.mp hd ▸ hc

theorem isName_singleton (hc : isNameChar c = true) : IsName [c] :=
  ⟨List.cons_ne_nil _ _, fun _ hd => List.mem_singleton.mp hd ▸ hc⟩

theorem isGap_singleton (hc : isBlank c = true) : IsGap [c] :=
  fun _ hd => List.mem_singleton.mp hd ▸ hc

theorem endsIn_singleton (t : List Char) (hc : isNameChar c = true) :
    EndsIn (width t) [c] (t ++ [c]) :=
  ⟨isName_singleton hc, t, rfl, rfl⟩

theorem EndsIn.snoc (h : EndsIn start word t) (hc : isNameChar c = true) :
    EndsIn start (word ++ [c]) (t ++ [c]) := by
  obtain ⟨hname, before, hwidth, rfl⟩ := h
  exact ⟨hname.snoc hc, before, hwidth, List.append_assoc ..⟩

theorem EndsInLabel.snoc (h : EndsInLabel kind start nameStart name t)
    (hc : isNameChar c = true) :
    EndsInLabel kind start nameStart (name ++ [c]) (t ++ [c]) := by
  obtain ⟨hname, before, gap, hbefore, hne, hgap, hwidth, rfl⟩ := h
  refine ⟨hname.snoc hc, before, gap, hbefore, hne, hgap, hwidth, ?_⟩
  rw [List.append_assoc, List.append_assoc]

theorem EndsInLabel.endsIn (h : EndsInLabel kind start nameStart name t) :
    EndsIn nameStart name t := by
  obtain ⟨hname, before, gap, -, -, -, hwidth, rfl⟩ := h
  exact ⟨hname, before ++ gap, hwidth, (List.append_assoc ..).symm⟩

/-! ## Places step by step -/

theorem eq_keyword_of_ofKeyword? {word : String} (h : BlockKind.ofKeyword? word = some kind) :
    word = kind.keyword := by
  have hfound := List.find?_some h
  exact (of_decide_eq_true hfound).symm

/-- A character that belongs to no header leads out of it. -/
theorem Place.next_eq_between {p : Place} (hp : p.isOutside = true) (o : Nat)
    (hn : isNameChar c = false) (hb : isBlank c = false) (hc : c ≠ '{') :
    p.next o c = .between := by
  have hn' : ¬ isNameChar c = true := by rw [hn]; exact Bool.false_ne_true
  have hb' : ¬ isBlank c = true := by rw [hb]; exact Bool.false_ne_true
  cases p with
  | body opened depth text => cases hp
  | between => rw [Place.next, if_neg hn']
  | word start letters => rw [Place.next, if_neg hn', if_neg hb']
  | keyword kind start => rw [Place.next, if_neg hn', if_neg hb']
  | name kind start nameStart letters => rw [Place.next, if_neg hn', if_neg hb', if_neg hc]
  | header kind start nameStart label => rw [Place.next, if_neg hn', if_neg hb', if_neg hc]

/-- A letter starts a word or goes on with one. -/
theorem Place.Follows.next_letter {p : Place} (hp : p.isOutside = true) (h : p.Follows t)
    (hc : isNameChar c = true) : (p.next (width t) c).Follows (t ++ [c]) := by
  cases p with
  | body opened depth text => cases hp
  | between =>
      rw [Place.next, if_pos hc]
      exact endsIn_singleton t hc
  | word start letters =>
      rw [Place.next, if_pos hc, Place.Follows, List.reverse_cons]
      exact h.snoc hc
  | keyword kind start =>
      obtain ⟨before, gap, hbefore, hne, hgap, rfl⟩ := h
      rw [Place.next, if_pos hc]
      exact ⟨isName_singleton hc, before, gap, hbefore, hne, hgap, rfl, List.append_assoc ..⟩
  | name kind start nameStart letters =>
      rw [Place.next, if_pos hc, Place.Follows, List.reverse_cons]
      exact h.snoc hc
  | header kind start nameStart label =>
      obtain ⟨before, gap, hbefore, hne, hgap, rfl⟩ := h
      rw [Place.next, if_pos hc]
      cases hkind : BlockKind.ofKeyword? label with
      | none => exact endsIn_singleton _ hc
      | some inner =>
          -- the name turns out to be the keyword of the next label
          have hword := hbefore.endsIn
          rw [eq_keyword_of_ofKeyword? hkind] at hword
          exact ⟨isName_singleton hc, before, gap, hword, hne, hgap, rfl, List.append_assoc ..⟩

/-- A blank ends a word or goes on with a gap. -/
theorem Place.Follows.next_blank {p : Place} (hp : p.isOutside = true) (h : p.Follows t)
    (hc : isBlank c = true) : (p.next (width t) c).Follows (t ++ [c]) := by
  have hn : ¬ isNameChar c = true := by rw [(isBlank_ne hc).2.2]; exact Bool.false_ne_true
  cases p with
  | body opened depth text => cases hp
  | between =>
      rw [Place.next, if_neg hn]
      exact trivial
  | word start letters =>
      rw [Place.next, if_neg hn, if_pos hc]
      cases hkind : BlockKind.ofKeyword? (wordOf letters) with
      | none => exact trivial
      | some kind =>
          have hword : letters.reverse = kind.keyword.toList := by
            rw [← eq_keyword_of_ofKeyword? hkind, wordOf, String.toList_ofList]
          exact ⟨t, [c], hword ▸ h, List.cons_ne_nil _ _, isGap_singleton hc, rfl⟩
  | keyword kind start =>
      obtain ⟨before, gap, hbefore, hne, hgap, rfl⟩ := h
      rw [Place.next, if_neg hn, if_pos hc]
      exact ⟨before, gap ++ [c], hbefore, List.append_ne_nil_of_left_ne_nil hne _,
        hgap.snoc hc, List.append_assoc ..⟩
  | name kind start nameStart letters =>
      rw [Place.next, if_neg hn, if_pos hc]
      refine ⟨t, [c], ?_, List.cons_ne_nil _ _, isGap_singleton hc, rfl⟩
      rw [wordOf, String.toList_ofList]
      exact h
  | header kind start nameStart label =>
      obtain ⟨before, gap, hbefore, hne, hgap, rfl⟩ := h
      rw [Place.next, if_neg hn, if_pos hc]
      exact ⟨before, gap ++ [c], hbefore, List.append_ne_nil_of_left_ne_nil hne _,
        hgap.snoc hc, List.append_assoc ..⟩

/-- An opening brace after a label opens a body. -/
theorem Place.Follows.next_brace {p : Place} (hp : p.isOutside = true) (h : p.Follows t) :
    (p.next (width t) '{').Follows (t ++ ['{']) := by
  cases p with
  | body opened depth text => cases hp
  | between => exact trivial
  | word start letters => exact trivial
  | keyword kind start => exact trivial
  | name kind start nameStart letters =>
      refine ⟨nameStart, t, [], ?_, fun _ hd => (by cases hd), rfl⟩
      rw [wordOf, String.toList_ofList]
      exact h
  | header kind start nameStart label =>
      obtain ⟨before, gap, hbefore, hne, hgap, rfl⟩ := h
      exact ⟨nameStart, before, gap, hbefore, hgap, List.append_assoc ..⟩

/-- The next place follows the text with the next character. -/
theorem Place.Follows.next {p : Place} (hp : p.isOutside = true) (h : p.Follows t) (c : Char) :
    (p.next (width t) c).Follows (t ++ [c]) := by
  by_cases hn : isNameChar c = true
  · exact h.next_letter hp hn
  by_cases hb : isBlank c = true
  · exact h.next_blank hp hb
  by_cases hc : c = '{'
  · subst hc
    exact h.next_brace hp
  rw [Place.next_eq_between hp _ (Bool.eq_false_iff.mpr hn) (Bool.eq_false_iff.mpr hb) hc]
  exact trivial

/-! ## Blocks in a text -/

/-- Whether a block is written in a text, from the offset of its header on. -/
def Block.StandsIn (b : Block) (before text t : List Char) : Prop :=
  width before = b.header.offset
    ∧ Written b.header.kind b.header.name.toList b.body.toList text
    ∧ ∃ after : List Char, t = before ++ (text ++ after)

/-- The closing brace makes a block of a label and the body after it. -/
theorem Place.Follows.close {opened : Header} {d : Nat} {text : List Char}
    (h : (Place.body opened d text).Follows t) :
    ∃ before block : List Char, Block.StandsIn ⟨opened, String.ofList text.reverse⟩ before block
        (t ++ ['}']) ∧ t ++ ['}'] = before ++ block := by
  obtain ⟨nameStart, _, gap', ⟨hname, _, gap, ⟨-, before, hwidth, rfl⟩, hne, hgap, -, rfl⟩,
    hgap', rfl⟩ := h
  have heq : before ++ opened.kind.keyword.toList ++ (gap ++ opened.name.toList)
        ++ (gap' ++ '{' :: text.reverse) ++ ['}']
      = before ++ (opened.kind.keyword.toList
        ++ (gap ++ (opened.name.toList ++ (gap' ++ '{' :: (text.reverse ++ ['}']))))) := by
    simp only [List.append_assoc, List.cons_append]
  refine ⟨before, _, ⟨hwidth, ⟨gap, gap', hne, hgap, hname, hgap', rfl⟩, [], ?_⟩, ?_⟩
  · rw [List.append_nil, String.toList_ofList]
    exact heq
  · rw [String.toList_ofList]
    exact heq

theorem Block.StandsIn.append {b : Block} {before text : List Char}
    (h : b.StandsIn before text t) (more : List Char) : b.StandsIn before text (t ++ more) := by
  obtain ⟨hwidth, hwritten, after, rfl⟩ := h
  refine ⟨hwidth, hwritten, after ++ more, ?_⟩
  rw [List.append_assoc, List.append_assoc]

/-- Only code leads on in a header. -/
theorem Place.zone_next {p : Place} {z : Zone} (hp : p.isOutside = true) (hz : z.isCode = true)
    {o : Nat} (h : p.next o c ≠ .between) : z.next c = .code := by
  refine Zone.next_eq_code hz ?_ ?_
  · rintro rfl
    exact h (Place.next_eq_between hp o rfl rfl (by decide))
  · rintro rfl
    exact h (Place.next_eq_between hp o rfl rfl (by decide))

namespace Scan

/-- What a scan that has read a text from the start knows about it. -/
structure Reads (t : List Char) (s : Scan) : Prop where
  run_start : Scan.start.run t = s
  offset : s.offset = width t
  /-- Headers are code. -/
  zone : s.place.isOutside = true → s.place ≠ .between → s.zone = .code
  place : s.place.Follows t
  /-- A found block stands in the text, and its closing brace led between the
      blocks. -/
  found : ∀ (newer older : List Block) (b : Block), s.found = newer ++ b :: older →
    ∃ before text : List Char, b.StandsIn before text t
      ∧ Scan.start.run (before ++ text)
        = ⟨width (before ++ text), .code, .between, b :: older⟩

variable {s : Scan}

/-- The start has read nothing. -/
theorem reads_start : Reads [] Scan.start where
  run_start := rfl
  offset := rfl
  zone := fun _ hne => absurd rfl hne
  place := trivial
  found := by
    intro newer older b h
    cases newer <;> cases h

theorem Reads.run_snoc (h : Reads t s) (c : Char) : Scan.start.run (t ++ [c]) = s.step c := by
  rw [run_append, h.run_start]
  rfl

/-- A step that finds no block keeps what is known about those found. -/
theorem Reads.move (h : Reads t s) {z : Zone} {p : Place}
    (hstep : s.step c = ⟨s.offset + c.utf8Size, z, p, s.found⟩)
    (hzone : p.isOutside = true → p ≠ .between → z = .code) (hplace : p.Follows (t ++ [c])) :
    Reads (t ++ [c]) (s.step c) where
  run_start := h.run_snoc c
  offset := by
    rw [hstep, width_append, h.offset]
    rfl
  zone := by
    rw [hstep]
    exact hzone
  place := by
    rw [hstep]
    exact hplace
  found := by
    rw [hstep]
    intro newer older b hfound
    obtain ⟨before, text, hstands, hrun⟩ := h.found newer older b hfound
    exact ⟨before, text, hstands.append [c], hrun⟩

theorem follows_body {opened : Header} {d d' : Nat} {text : List Char}
    (h : (Place.body opened d text).Follows t) (c : Char) :
    (Place.body opened d' (c :: text)).Follows (t ++ [c]) := by
  obtain ⟨nameStart, before, gap, hbefore, hgap, rfl⟩ := h
  refine ⟨nameStart, before, gap, hbefore, hgap, ?_⟩
  simp only [List.append_assoc, List.cons_append, List.reverse_cons]

/-- The closing brace of a block adds the block to those found. -/
theorem Reads.close {o : Nat} {z : Zone} {opened : Header} {text : List Char}
    {found : List Block} (h : Reads t ⟨o, z, .body opened 0 text, found⟩)
    (hz : z.isCode = true) :
    Reads (t ++ ['}']) (step ⟨o, z, .body opened 0 text, found⟩ '}') := by
  have hstep : step ⟨o, z, .body opened 0 text, found⟩ '}'
      = ⟨o + 1, .code, .between, ⟨opened, String.ofList text.reverse⟩ :: found⟩ := step_finish hz
  have hoffset : o + 1 = width (t ++ ['}']) := by
    rw [width_append, ← h.offset]
    rfl
  refine ⟨h.run_snoc '}', ?_, ?_, ?_, ?_⟩
  · rw [hstep]
    exact hoffset
  · rw [hstep]
    exact fun _ hne => absurd rfl hne
  · rw [hstep]
    exact trivial
  · rw [hstep]
    intro newer older b hfound
    cases newer with
    | nil =>
        obtain ⟨rfl, rfl⟩ := List.cons.inj hfound
        -- the newest block is the one that was closed here
        obtain ⟨before, block, hstands, heq⟩ := h.place.close
        refine ⟨before, block, hstands, ?_⟩
        rw [← heq, h.run_snoc, hstep, hoffset]
    | cons first newer =>
        obtain ⟨before, block, hstands, hrun⟩ :=
          h.found newer older b (List.cons.inj hfound).2
        exact ⟨before, block, hstands.append _, hrun⟩

/-- The invariant of one step. -/
theorem Reads.step (h : Reads t s) (c : Char) : Reads (t ++ [c]) (s.step c) := by
  obtain ⟨o, z, p, found⟩ := s
  by_cases hz : z.isCode = true
  · cases hp : p.isOutside with
    | true =>
        refine h.move (step_outside hz hp c) (fun _ hne => Place.zone_next hp hz hne) ?_
        have hnext := h.place.next hp c
        rw [← h.offset] at hnext
        exact hnext
    | false =>
        cases p with
        | body opened d text =>
            by_cases hopen : c = '{'
            · subst hopen
              exact h.move (step_open hz) (fun hp => by cases hp) (follows_body h.place _)
            by_cases hclose : c = '}'
            · subst hclose
              cases d with
              | zero => exact h.close hz
              | succ d =>
                  exact h.move (step_close hz) (fun hp => by cases hp) (follows_body h.place _)
            exact h.move (step_body c fun _ => ⟨hopen, hclose⟩) (fun hp => by cases hp)
              (follows_body h.place c)
        | _ => cases hp
  · by_cases hp : p.isOutside = true
    · -- literals and comments outside of bodies stand between the blocks
      have hbetween : p = .between := Classical.byContradiction fun hne =>
        hz (congrArg Zone.isCode (h.zone hp hne))
      subst hbetween
      exact h.move (step_idle hz hp c) (fun _ hne => absurd rfl hne) trivial
    · cases p with
      | body opened d text =>
          exact h.move (step_body c fun hz' => absurd hz' hz) (fun hp => by cases hp)
            (follows_body h.place c)
      | _ => exact absurd rfl hp

/-- The invariant of a whole run. -/
theorem Reads.run (h : Reads t s) (more : List Char) : Reads (t ++ more) (s.run more) := by
  induction more generalizing t s with
  | nil => exact (List.append_nil t).symm ▸ h
  | cons c more ih =>
      have hrest := ih (h.step c)
      rw [List.append_assoc] at hrest
      exact hrest

/-- A scan from the start reads the text that it is given. -/
theorem reads (t : List Char) : Reads t (Scan.start.run t) :=
  reads_start.run t

end Scan

end Stencil.Schema
