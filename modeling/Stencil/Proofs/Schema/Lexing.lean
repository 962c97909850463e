import Stencil.Proofs.Schema.Concatenation

/-! # One lexing of the whole text

    Which characters of a text are code, and how many braces are open at each of
    them, is settled by the text alone: a fold over its characters tells the zone
    of every place (`zoneAfter`) and a sum the depth of braces (`depth`), no block
    considered.  What it means for a block to span a part of a text
    (`Block.Spans`) is said in these terms; the offset and the header leave no
    choice where it does (`Block.Spans.unique`). -/

namespace Stencil.Schema

open Stencil.Text (isBlank)

variable {t more before before' head head' rest : List Char} {c : Char} {z : Zone}

/-! ## Zones -/

/-- The zone after a text that starts in a zone. -/
def Zone.after (z : Zone) (text : List Char) : Zone :=
  text.foldl Zone.next z

/-- The zone of the place that comes after a text. -/
def zoneAfter (text : List Char) : Zone :=
  Zone.code.after text

theorem Zone.after_append (z : Zone) (t more : List Char) :
    z.after (t ++ more) = (z.after t).after more :=
  List.foldl_append

theorem zoneAfter_snoc (t : List Char) (c : Char) : zoneAfter (t ++ [c]) = (zoneAfter t).next c :=
  Zone.after_append .code t [c]

/-- No letter of a word leads back into code. -/
theorem Zone.isCode_of_next (hc : isNameChar c = true) (h : (z.next c).isCode = true) :
    z.isCode = true := by
  cases z with
  | code => rfl
  | slash => rfl
  | literal =>
      rw [Zone.next, if_neg (isNameChar_ne hc).1] at h
      split at h <;> cases h
  | escape => cases h
  | comment =>
      have hline : c ≠ '\n' := by
        rintro rfl
        exact absurd hc (by decide)
      rw [Zone.next, if_neg hline] at h
      cases h

/-! ## Depths -/

/-- What a character adds to the depth of braces. -/
def Zone.turn (z : Zone) (c : Char) : Int :=
  if z.isCode then (if c = '{' then 1 else if c = '}' then -1 else 0) else 0

/-- How many more braces a text opens than it closes, those in literals and comments
    not counted. -/
def depth (z : Zone) : List Char → Int
  | [] => 0
  | c :: rest => z.turn c + depth (z.next c) rest

theorem depth_append (z : Zone) (t more : List Char) :
    depth z (t ++ more) = depth z t + depth (z.after t) more := by
  induction t generalizing z with
  | nil => exact (Int.zero_add _).symm
  | cons c t ih =>
      rw [List.cons_append, depth, depth, ih, Int.add_assoc]
      rfl

theorem depth_snoc (z : Zone) (t : List Char) (c : Char) :
    depth z (t ++ [c]) = depth z t + (z.after t).turn c := by
  rw [depth_append, depth, depth, Int.add_zero]

theorem Zone.turn_open (hz : z.isCode = true) : z.turn '{' = 1 := by
  rw [Zone.turn, if_pos hz]
  rfl

theorem Zone.turn_close (hz : z.isCode = true) : z.turn '}' = -1 := by
  rw [Zone.turn, if_pos hz]
  rfl

theorem Zone.turn_other (h : z.isCode = true → c ≠ '{' ∧ c ≠ '}') : z.turn c = 0 := by
  by_cases hz : z.isCode = true
  · rw [Zone.turn, if_pos hz, if_neg (h hz).1, if_neg (h hz).2]
  · rw [Zone.turn, if_neg hz]

/-! ## Headers -/

/-- Whether no word that is not finished ends a text. -/
def IsWordStart (before : List Char) : Prop :=
  ∀ c, before.getLast? = some c → isNameChar c = false

instance (before : List Char) : Decidable (IsWordStart before) :=
  match h : before.getLast? with
  | none => .isTrue fun c hc => by rw [h] at hc; cases hc
  | some d => decidable_of_iff (isNameChar d = false)
      ⟨fun hd c hc => by rw [h] at hc; cases hc; exact hd, fun hd => hd d h⟩

theorem isWordStart_snoc (t : List Char) (hc : isNameChar c = false) : IsWordStart (t ++ [c]) := by
  intro d hd
  rw [List.getLast?_concat] at hd
  cases hd
  exact hc

/-- Whether a text is the header of a block, up to the opening brace: the keyword, a
    gap, the name, and perhaps a gap. -/
def IsHeader (kind : BlockKind) (name head : List Char) : Prop :=
  ∃ gap gap' : List Char, gap ≠ [] ∧ IsGap gap ∧ IsName name ∧ IsGap gap'
    ∧ head = kind.keyword.toList ++ (gap ++ (name ++ gap'))

/-- A header has no brace in it. -/
theorem IsHeader.not_mem {kind : BlockKind} {name : List Char} (h : IsHeader kind name head) :
    '{' ∉ head := by
  obtain ⟨gap, gap', -, hgap, hname, hgap', rfl⟩ := h
  have hletters : ∀ word : List Char, IsName word → '{' ∉ word :=
    fun word hword hmem => (isNameChar_ne (hword.2 _ hmem)).2.2.1 rfl
  have hblanks : ∀ gap : List Char, IsGap gap → '{' ∉ gap := by
    intro gap hgap hmem
    exact absurd (hgap _ hmem) (by decide)
  simp only [List.mem_append, not_or]
  exact ⟨hletters _ (isName_keyword kind), hblanks _ hgap, hletters _ hname, hblanks _ hgap'⟩

/-- Before its first brace a text is cut in one way. -/
theorem eq_of_not_mem_brace {rest rest' : List Char} (h : '{' ∉ head) (h' : '{' ∉ head')
    (heq : head ++ '{' :: rest = head' ++ '{' :: rest') : head = head' := by
  have htake : ∀ cs tail : List Char, '{' ∉ cs →
      (cs ++ '{' :: tail).takeWhile (· ≠ '{') = cs := by
    intro cs tail hcs
    have hall : ∀ x ∈ cs, decide (x ≠ '{') = true :=
      fun x hx => decide_eq_true fun hbrace => hcs (hbrace ▸ hx)
    rw [List.takeWhile_append_of_pos hall, List.takeWhile_cons_of_neg (by decide),
      List.append_nil]
  rw [← htake head rest h, heq, htake head' rest' h']

/-! ## Spans -/

/-- Whether a block spans a part of a text, after the text before it: there stands its
    header, outside of literals and comments and not in the middle of a word; the body
    follows, and the brace that closes it, not an earlier one, is the one after the
    body. -/
structure Block.Spans (b : Block) (t before head : List Char) : Prop where
  cut : ∃ after : List Char, t = before ++ (head ++ '{' :: (b.body.toList ++ '}' :: after))
  offset : width before = b.header.offset
  header : IsHeader b.header.kind b.header.name.toList head
  wordStart : IsWordStart before
  code : (zoneAfter before).isCode = true
  /-- Inside the body the opening brace stays open. -/
  inside : ∀ inner : List Char, inner <+: b.body.toList →
    0 < depth (zoneAfter (before ++ head)) ('{' :: inner)
  closed : depth (zoneAfter (before ++ head)) ('{' :: (b.body.toList ++ ['}'])) = 0

/-- Whether a header stands in a text as that of a block would, with a body that goes on
    to the end: the brace after the header stays open. -/
structure Header.StaysOpen (opened : Header) (t before head body : List Char) : Prop where
  cut : t = before ++ (head ++ '{' :: body)
  offset : width before = opened.offset
  header : IsHeader opened.kind opened.name.toList head
  wordStart : IsWordStart before
  code : (zoneAfter before).isCode = true
  inside : ∀ inner : List Char, inner <+: body →
    0 < depth (zoneAfter (before ++ head)) ('{' :: inner)

/-- Whether a block of a text ends at an offset. -/
def Block.EndsAt (b : Block) (t : List Char) (stop : Nat) : Prop :=
  ∃ before head : List Char, b.Spans t before head
    ∧ stop = width (before ++ (head ++ '{' :: (b.body.toList ++ ['}'])))

variable {b : Block}

theorem Block.Spans.append (h : b.Spans t before head) (more : List Char) :
    b.Spans (t ++ more) before head := by
  obtain ⟨after, rfl⟩ := h.cut
  refine { h with cut := ⟨after ++ more, ?_⟩ }
  simp only [List.append_assoc, List.cons_append]

theorem Block.EndsAt.append {stop : Nat} (h : b.EndsAt t stop) (more : List Char) :
    b.EndsAt (t ++ more) stop := by
  obtain ⟨before, head, hspans, hstop⟩ := h
  exact ⟨before, head, hspans.append more, hstop⟩

/-- A block spans one part of a text only. -/
theorem Block.Spans.unique (h : b.Spans t before head) (h' : b.Spans t before' head') :
    before = before' ∧ head = head' := by
  obtain ⟨after, hcut⟩ := h.cut
  obtain ⟨after', hcut'⟩ := h'.cut
  obtain ⟨hbefore, hrest⟩ := append_inj_of_width_eq (hcut.symm.trans hcut')
    (h.offset.trans h'.offset.symm)
  exact ⟨hbefore, eq_of_not_mem_brace h.header.not_mem h'.header.not_mem hrest⟩

theorem Block.EndsAt.unique {stop stop' : Nat} (h : b.EndsAt t stop) (h' : b.EndsAt t stop') :
    stop = stop' := by
  obtain ⟨before, head, hspans, rfl⟩ := h
  obtain ⟨before', head', hspans', rfl⟩ := h'
  obtain ⟨rfl, rfl⟩ := hspans.unique hspans'
  rfl

/-- A block ends after it starts. -/
theorem Block.EndsAt.offset_lt {stop : Nat} (h : b.EndsAt t stop) : b.header.offset < stop := by
  obtain ⟨before, head, hspans, rfl⟩ := h
  have hpos := ('{' : Char).utf8Size_pos
  rw [← hspans.offset]
  simp only [width_append, width_cons]
  omega

/-- A block ends within the text. -/
theorem Block.EndsAt.le {stop : Nat} (h : b.EndsAt t stop) : stop ≤ width t := by
  obtain ⟨before, head, hspans, rfl⟩ := h
  obtain ⟨after, rfl⟩ := hspans.cut
  simp only [width_append, width_cons, width_nil]
  omega

end Stencil.Schema
