import Stencil.Proofs.Schema.Lexing

/-! # The scan keeps to the lexing

    The zone of a scan is that of the text it has read; every word that may turn
    out to be a keyword starts in code and not in the middle of another word; and
    inside a body the scan counts the depth of braces.  All this is the invariant
    `Scan.Keeps`.  It gives each found block the part of the text that it spans,
    after the ends of all blocks found before it (`Scan.Keeps.found`). -/

namespace Stencil.Schema

/-! ## Words and bodies -/

/-- Whether a place is in the middle of a word. -/
def Place.inWord : Place → Bool
  | .word _ _ => true
  | .name _ _ _ _ => true
  | _ => false

/-- The offsets of the words that may be the keyword of a block. -/
def Place.starts : Place → List Nat
  | .between => []
  | .word start _ => [start]
  | .keyword _ start => [start]
  | .name _ start nameStart _ => [start, nameStart]
  | .header _ start nameStart _ => [start, nameStart]
  | .body opened _ _ => [opened.offset]

/-- Whether a keyword may stand at an offset of a text: in code, not in the middle of a
    word, and after the blocks found so far. -/
def Fresh (found : List Block) (t : List Char) (start : Nat) : Prop :=
  ∃ before rest : List Char, t = before ++ rest ∧ width before = start ∧ IsWordStart before
    ∧ (zoneAfter before).isCode = true ∧ (Scan.start.run before).found = found

/-- Whether a text ends in an open body, at a depth of further braces. -/
def Inside (t : List Char) (d : Nat) (body : List Char) : Prop :=
  ∃ front : List Char, t = front ++ '{' :: body
    ∧ (∀ inner : List Char, inner <+: body → 0 < depth (zoneAfter front) ('{' :: inner))
    ∧ depth (zoneAfter front) ('{' :: body) = d + 1

variable {t : List Char} {c : Char} {p : Place} {found : List Block} {o start : Nat}

theorem Fresh.snoc (h : Fresh found t start) (c : Char) : Fresh found (t ++ [c]) start := by
  obtain ⟨before, rest, rfl, hstart⟩ := h
  exact ⟨before, rest ++ [c], List.append_assoc .., hstart⟩

/-- A step outside of bodies starts a word with a letter only, and only after what is
    no word. -/
theorem Place.mem_starts_next (hp : p.isOutside = true) (h : start ∈ (p.next o c).starts) :
    start ∈ p.starts ∨ start = o ∧ p.inWord = false := by
  cases p with
  | body opened d text => cases hp
  | between =>
      rw [Place.next] at h
      split at h
      · exact Or.inr ⟨List.mem_singleton.mp h, rfl⟩
      · cases h
  | word first letters =>
      rw [Place.next] at h
      split at h
      · exact Or.inl h
      · split at h
        · split at h
          · exact Or.inl h
          · cases h
        · cases h
  | keyword kind first =>
      rw [Place.next] at h
      split at h
      · rcases List.mem_cons.mp h with hfirst | hname
        · exact Or.inl (List.mem_singleton.mpr hfirst)
        · exact Or.inr ⟨List.mem_singleton.mp hname, rfl⟩
      · split at h
        · exact Or.inl h
        · cases h
  | name kind first nameStart letters =>
      rw [Place.next] at h
      split at h
      · exact Or.inl h
      · split at h
        · exact Or.inl h
        · split at h
          · exact Or.inl (List.mem_cons.mpr (Or.inl (List.mem_singleton.mp h)))
          · cases h
  | header kind first nameStart label =>
      rw [Place.next] at h
      split at h
      · split at h
        · -- the name is the keyword now, and a new name starts
          rcases List.mem_cons.mp h with hfirst | hname
          · exact Or.inl (List.mem_cons.mpr (Or.inr (List.mem_singleton.mpr hfirst)))
          · exact Or.inr ⟨List.mem_singleton.mp hname, rfl⟩
        · exact Or.inr ⟨List.mem_singleton.mp h, rfl⟩
      · split at h
        · exact Or.inl h
        · split at h
          · exact Or.inl (List.mem_cons.mpr (Or.inl (List.mem_singleton.mp h)))
          · cases h

/-- A letter outside of bodies leads into a word. -/
theorem Place.inWord_next (hp : p.isOutside = true) (hc : isNameChar c = true) (o : Nat) :
    (p.next o c).inWord = true := by
  cases p with
  | body opened d text => cases hp
  | between => rw [Place.next, if_pos hc]; rfl
  | word first letters => rw [Place.next, if_pos hc]; rfl
  | keyword kind first => rw [Place.next, if_pos hc]; rfl
  | name kind first nameStart letters => rw [Place.next, if_pos hc]; rfl
  | header kind first nameStart label =>
      rw [Place.next, if_pos hc]
      cases BlockKind.ofKeyword? label <;> rfl

/-- A body is opened by a brace. -/
theorem Place.eq_of_next_body {opened : Header} {d : Nat} {text : List Char}
    (hp : p.isOutside = true) (h : p.next o c = .body opened d text) :
    c = '{' ∧ d = 0 ∧ text = [] := by
  cases p with
  | body opened d text => cases hp
  | between =>
      rw [Place.next] at h
      split at h <;> cases h
  | word first letters =>
      rw [Place.next] at h
      split at h
      · cases h
      · split at h
        · split at h <;> cases h
        · cases h
  | keyword kind first =>
      rw [Place.next] at h
      split at h
      · cases h
      · split at h <;> cases h
  | name kind first nameStart letters =>
      rw [Place.next] at h
      split at h
      · cases h
      · split at h
        · cases h
        · split at h
          case isTrue hc =>
            cases h
            exact ⟨hc, rfl, rfl⟩
          case isFalse => cases h
  | header kind first nameStart label =>
      rw [Place.next] at h
      split at h
      · split at h <;> cases h
      · split at h
        · cases h
        · split at h
          case isTrue hc =>
            cases h
            exact ⟨hc, rfl, rfl⟩
          case isFalse => cases h

/-- A character that keeps the body open goes on with it. -/
theorem Inside.snoc {d d' : Nat} {body : List Char} (h : Inside t d body)
    (hturn : (zoneAfter t).turn c + d = d') : Inside (t ++ [c]) d' (body ++ [c]) := by
  obtain ⟨front, rfl, hinside, hdepth⟩ := h
  have hnext : depth (zoneAfter front) ('{' :: (body ++ [c])) = d' + 1 := by
    have hzone : (zoneAfter front).after ('{' :: body) = zoneAfter (front ++ '{' :: body) :=
      (Zone.after_append .code front _).symm
    rw [← List.cons_append, depth_snoc, hdepth, hzone]
    omega
  refine ⟨front, by rw [List.append_assoc, List.cons_append], fun inner hinner => ?_, hnext⟩
  rcases List.prefix_concat_iff.mp hinner with rfl | hfront
  · rw [hnext]
    omega
  · exact hinside inner hfront

/-- An opening brace in code opens a body. -/
theorem inside_open (hz : (zoneAfter t).isCode = true) : Inside (t ++ ['{']) 0 [] := by
  have hone : depth (zoneAfter t) ['{'] = 1 := by
    rw [depth, depth, Zone.turn_open hz]
    rfl
  refine ⟨t, rfl, fun inner hinner => ?_, by rw [hone]; rfl⟩
  rw [List.prefix_nil.mp hinner, hone]
  decide

/-! ## The invariant -/

namespace Scan

/-- What the places and blocks of a scan have to do with the lexing of the text that it
    has read. -/
structure Keeps (t : List Char) (s : Scan) : Prop where
  zone : s.zone = zoneAfter t
  wordStart : s.place.isOutside = true → s.zone.isCode = true → s.place.inWord = false →
    IsWordStart t
  starts : ∀ start ∈ s.place.starts, Fresh s.found t start
  body : ∀ (opened : Header) (d : Nat) (text : List Char), s.place = .body opened d text →
    Inside t d text.reverse
  found : ∀ (newer older : List Block) (b : Block), s.found = newer ++ b :: older →
    ∃ before head : List Char, b.Spans t before head ∧ (Scan.start.run before).found = older

variable {s : Scan}

/-- The start has read nothing. -/
theorem keeps_start : Keeps [] Scan.start where
  zone := rfl
  wordStart := fun _ _ _ c hc => by cases hc
  starts := fun start hstart => by cases hstart
  body := fun opened d text h => by cases h
  found := by
    intro newer older b h
    cases newer <;> cases h

/-- A step that finds no block keeps to the lexing if its place does. -/
theorem Keeps.move (h : Keeps t s) {o : Nat} {p : Place}
    (hstep : s.step c = ⟨o, s.zone.next c, p, s.found⟩)
    (hword : p.isOutside = true → (s.zone.next c).isCode = true → p.inWord = false →
      IsWordStart (t ++ [c]))
    (hstarts : ∀ start ∈ p.starts, Fresh s.found (t ++ [c]) start)
    (hbody : ∀ (opened : Header) (d : Nat) (text : List Char), p = .body opened d text →
      Inside (t ++ [c]) d text.reverse) : Keeps (t ++ [c]) (s.step c) := by
  rw [hstep]
  refine ⟨?_, hword, hstarts, hbody, ?_⟩
  · rw [zoneAfter_snoc, ← h.zone]
  · intro newer older b hfound
    obtain ⟨before, head, hspans, hrun⟩ := h.found newer older b hfound
    exact ⟨before, head, hspans.append [c], hrun⟩

/-- Outside of bodies. -/
theorem Keeps.step_outside (h : Keeps t s) (hreads : Reads t s) (hp : s.place.isOutside = true)
    (c : Char) : Keeps (t ++ [c]) (s.step c) := by
  obtain ⟨o, z, p, found⟩ := s
  by_cases hz : z.isCode = true
  · refine h.move (Scan.step_outside hz hp c) ?_ ?_ ?_
    · intro _ _ hword
      refine isWordStart_snoc t (Bool.eq_false_iff.mpr fun hc => ?_)
      rw [Place.inWord_next hp hc] at hword
      cases hword
    · intro start hstart
      rcases Place.mem_starts_next hp hstart with hold | ⟨rfl, hword⟩
      · exact (h.starts start hold).snoc c
      · -- a word starts here, after all of the text read so far
        refine ⟨t, [c], rfl, hreads.offset.symm, h.wordStart hp hz hword, ?_, ?_⟩
        · rw [← h.zone]
          exact hz
        · rw [hreads.run_start]
    · intro opened d text hbody
      obtain ⟨rfl, rfl, rfl⟩ := Place.eq_of_next_body hp hbody
      exact inside_open (h.zone ▸ hz)
  · refine h.move (step_idle hz hp c) ?_ ?_ ?_
    · intro _ hnext _
      exact isWordStart_snoc t (Bool.eq_false_iff.mpr fun hc => hz (Zone.isCode_of_next hc hnext))
    · exact fun start hstart => (h.starts start hstart).snoc c
    · rintro opened d text rfl
      cases hp

/-- Inside a body that stays open. -/
theorem Keeps.step_body {z : Zone} {opened : Header} {d d' o' : Nat} {text : List Char}
    (h : Keeps t ⟨o, z, .body opened d text, found⟩)
    (hstep : step ⟨o, z, .body opened d text, found⟩ c
      = ⟨o', z.next c, .body opened d' (c :: text), found⟩)
    (hturn : z.turn c + d = d') :
    Keeps (t ++ [c]) (step ⟨o, z, .body opened d text, found⟩ c) := by
  refine h.move hstep (fun hp => by cases hp) ?_ ?_
  · exact fun start hstart => (h.starts start hstart).snoc c
  · intro opened' d'' text' heq
    obtain ⟨rfl, rfl, rfl⟩ := Place.body.inj heq
    rw [List.reverse_cons]
    exact (h.body opened d text rfl).snoc (h.zone ▸ hturn)

/-- An open body has a header that stays open. -/
theorem Keeps.staysOpen {opened : Header} {d : Nat} {text : List Char} (h : Keeps t s)
    (hreads : Reads t s) (hbody : s.place = .body opened d text) :
    ∃ before head : List Char, opened.StaysOpen t before head text.reverse
      ∧ (Scan.start.run before).found = s.found
      ∧ depth (zoneAfter (before ++ head)) ('{' :: text.reverse) = d + 1 := by
  have hplace := hreads.place
  have hstarts := h.starts opened.offset
  rw [hbody] at hplace hstarts
  obtain ⟨nameStart, _, gap', ⟨hname, _, gap, ⟨-, before, hwidth, rfl⟩, hne, hgap, -, rfl⟩,
    hgap', htext⟩ := hplace
  obtain ⟨before', rest, hbefore', hwidth', hword, hcode, hrun⟩ :=
    hstarts (List.mem_singleton_self _)
  obtain ⟨front, hfront, hinside, hdepth⟩ := h.body opened d text hbody
  have hhead : t = before
      ++ ((opened.kind.keyword.toList ++ (gap ++ (opened.name.toList ++ gap')))
        ++ '{' :: text.reverse) := by
    rw [htext]
    simp only [List.append_assoc]
  -- the three ways to cut the text are the same one
  obtain rfl : before' = before :=
    (append_inj_of_width_eq (hbefore'.symm.trans hhead) (hwidth'.trans hwidth.symm)).1
  obtain rfl : front = before'
      ++ (opened.kind.keyword.toList ++ (gap ++ (opened.name.toList ++ gap'))) := by
    rw [hfront, ← List.append_assoc] at hhead
    exact List.append_cancel_right hhead
  exact ⟨before', _, ⟨hhead, hwidth, ⟨gap, gap', hne, hgap, hname, hgap', rfl⟩, hword, hcode,
    hinside⟩, hrun, hdepth⟩

/-- The brace that closes a body ends the span of a block. -/
theorem Keeps.spans {opened : Header} {text : List Char} (h : Keeps t s) (hreads : Reads t s)
    (hbody : s.place = .body opened 0 text) (hz : s.zone.isCode = true) :
    ∃ before head : List Char,
      Block.Spans ⟨opened, String.ofList text.reverse⟩ (t ++ ['}']) before head
        ∧ (Scan.start.run before).found = s.found
        ∧ t ++ ['}'] = before ++ (head ++ '{' :: (text.reverse ++ ['}'])) := by
  obtain ⟨before, head, hopen, hrun, hdepth⟩ := h.staysOpen hreads hbody
  have hlist : (String.ofList text.reverse).toList = text.reverse := String.toList_ofList
  have hclose : t ++ ['}'] = before ++ (head ++ '{' :: (text.reverse ++ ['}'])) := by
    rw [hopen.cut]
    simp only [List.append_assoc, List.cons_append]
  refine ⟨before, head, ⟨⟨[], ?_⟩, hopen.offset, hopen.header, hopen.wordStart, hopen.code, ?_, ?_⟩,
    hrun, hclose⟩
  · rw [hlist]
    exact hclose
  · rw [hlist]
    exact hopen.inside
  · have hzone : (zoneAfter (before ++ head)).after ('{' :: text.reverse) = zoneAfter t := by
      rw [hopen.cut, ← List.append_assoc]
      exact (Zone.after_append .code _ _).symm
    rw [hlist, ← List.cons_append, depth_snoc, hdepth, hzone, ← h.zone, Zone.turn_close hz]
    rfl

/-- The step that finds a block. -/
theorem Keeps.step_finish {z : Zone} {opened : Header} {text : List Char}
    (h : Keeps t ⟨o, z, .body opened 0 text, found⟩)
    (hreads : Reads t ⟨o, z, .body opened 0 text, found⟩) (hz : z.isCode = true) :
    Keeps (t ++ ['}']) (step ⟨o, z, .body opened 0 text, found⟩ '}') := by
  have hzone : z = zoneAfter t := h.zone
  rw [Scan.step_finish hz]
  refine ⟨?_, ?_, ?_, ?_, ?_⟩
  · rw [zoneAfter_snoc, ← hzone, Zone.next_eq_code hz (by decide) (by decide)]
  · exact fun _ _ _ => isWordStart_snoc t rfl
  · exact fun start hstart => by cases hstart
  · exact fun opened d text heq => by cases heq
  · intro newer older b hfound
    cases newer with
    | nil =>
        obtain ⟨rfl, rfl⟩ := List.cons.inj hfound
        obtain ⟨before, head, hspans, hrun, -⟩ := h.spans hreads rfl hz
        exact ⟨before, head, hspans, hrun⟩
    | cons first newer =>
        obtain ⟨before, head, hspans, hrun⟩ := h.found newer older b (List.cons.inj hfound).2
        exact ⟨before, head, hspans.append _, hrun⟩

/-- The invariant of one step. -/
theorem Keeps.step (h : Keeps t s) (hreads : Reads t s) (c : Char) :
    Keeps (t ++ [c]) (s.step c) := by
  obtain ⟨o, z, p, found⟩ := s
  cases hp : p.isOutside with
  | true => exact h.step_outside hreads hp c
  | false =>
      cases p with
      | body opened d text =>
          by_cases hz : z.isCode = true
          · by_cases hopen : c = '{'
            · subst hopen
              have hnext : z.next '{' = .code := Zone.next_eq_code hz (by decide) (by decide)
              refine h.step_body (hnext ▸ step_open hz) ?_
              rw [Zone.turn_open hz]
              omega
            by_cases hclose : c = '}'
            · subst hclose
              have hnext : z.next '}' = .code := Zone.next_eq_code hz (by decide) (by decide)
              cases d with
              | zero => exact h.step_finish hreads hz
              | succ d =>
                  refine h.step_body (hnext ▸ step_close hz) ?_
                  rw [Zone.turn_close hz]
                  omega
            have hother : z.isCode = true → c ≠ '{' ∧ c ≠ '}' := fun _ => ⟨hopen, hclose⟩
            refine h.step_body (Scan.step_body c hother) ?_
            rw [Zone.turn_other hother]
            omega
          · have hother : z.isCode = true → c ≠ '{' ∧ c ≠ '}' := fun hz' => absurd hz' hz
            refine h.step_body (Scan.step_body c hother) ?_
            rw [Zone.turn_other hother]
            omega
      | _ => cases hp

/-- The invariant of a whole run. -/
theorem Keeps.run (h : Keeps t s) (hreads : Reads t s) (more : List Char) :
    Keeps (t ++ more) (s.run more) := by
  induction more generalizing t s with
  | nil => exact (List.append_nil t).symm ▸ h
  | cons c more ih =>
      have hrest := ih (h.step hreads c) (hreads.step c)
      rw [List.append_assoc] at hrest
      exact hrest

/-- A scan from the start keeps to the lexing of the text that it is given. -/
theorem keeps (t : List Char) : Keeps t (Scan.start.run t) :=
  keeps_start.run reads_start t

/-- A block found later starts after the ends of those found earlier. -/
theorem Keeps.endsAt_le (h : Keeps t s) {newer older : List Block} {b earlier : Block}
    (hfound : s.found = newer ++ b :: older) (hearlier : earlier ∈ older) {stop : Nat}
    (hstop : earlier.EndsAt t stop) : stop ≤ b.header.offset := by
  obtain ⟨before, head, hspans, hrun⟩ := h.found newer older b hfound
  rw [← hrun] at hearlier
  obtain ⟨newer', older', holder⟩ := List.append_of_mem hearlier
  obtain ⟨before', head', hspans', -⟩ := (keeps before).found newer' older' earlier holder
  have hends : earlier.EndsAt before _ := ⟨before', head', hspans', rfl⟩
  obtain ⟨after, rfl⟩ := hspans.cut
  rw [hstop.unique (hends.append _), ← hspans.offset]
  exact hends.le

end Scan

end Stencil.Schema
