import Stencil.Proofs.Schema.BlockSpans

/-! # Every block is found

    From any place outside of bodies that is not in the middle of a word, a header
    and an opening brace lead into the body of that header (`Scan.run_header`),
    also if what was read before looked like the start of another header.  In a
    text without an open block every body that was opened is closed and found.

    The payoff is `blocks_exact`: the blocks of a text are those that its lexing
    has. -/

namespace Stencil.Schema

open Stencil.Text (isBlank)

namespace Scan

variable {o start : Nat} {z : Zone} {p : Place} {c : Char} {kind : BlockKind}
variable {gap gap' name head letters more t : List Char} {found : List Block} {s : Scan}

/-! ## Headers -/

/-- Whether a place is in a word from an offset on; the word may be read as the name of
    a block whose header started before. -/
def InWord (letters : List Char) (start : Nat) (p : Place) : Prop :=
  p = .word start letters
    ∨ ∃ (kind : BlockKind) (first : Nat), p = .name kind first start letters

/-- Whether a place is in the blanks after a keyword, which may be read as such a
    name. -/
def AfterKeyword (kind : BlockKind) (start : Nat) (p : Place) : Prop :=
  p = .keyword kind start
    ∨ ∃ (before : BlockKind) (first : Nat), p = .header before first start kind.keyword

/-- The first letter of a word. -/
theorem exists_inWord (hz : z.isCode = true) (hp : p.isOutside = true) (hword : p.inWord = false)
    (hc : isNameChar c = true) (found : List Block) (o : Nat) :
    ∃ p' : Place, InWord [c] o p'
      ∧ step ⟨o, z, p, found⟩ c = ⟨o + c.utf8Size, .code, p', found⟩ := by
  obtain ⟨hq, hs, -⟩ := isNameChar_ne hc
  refine ⟨p.next o c, ?_, by rw [Scan.step_outside hz hp, Zone.next_eq_code hz hq hs]⟩
  cases p with
  | between => rw [Place.next, if_pos hc]; exact Or.inl rfl
  | keyword kind first => rw [Place.next, if_pos hc]; exact Or.inr ⟨kind, first, rfl⟩
  | header kind first nameStart label =>
      rw [Place.next, if_pos hc]
      cases BlockKind.ofKeyword? label with
      | none => exact Or.inl rfl
      | some inner => exact Or.inr ⟨inner, nameStart, rfl⟩
  | word first letters => cases hword
  | name kind first nameStart letters => cases hword
  | body opened d text => cases hp

/-- The further letters of a word. -/
theorem InWord.run (h : InWord letters start p) {cs : List Char}
    (hcs : ∀ c ∈ cs, isNameChar c = true) (found : List Block) (o : Nat) :
    ∃ p' : Place, InWord (cs.reverse ++ letters) start p'
      ∧ Scan.run ⟨o, .code, p, found⟩ cs = ⟨o + width cs, .code, p', found⟩ := by
  rcases h with rfl | ⟨kind, first, rfl⟩
  · exact ⟨_, Or.inl rfl, run_word hcs o letters⟩
  · exact ⟨_, Or.inr ⟨kind, first, rfl⟩, run_name hcs o letters⟩

/-- A blank after a word that is a keyword. -/
theorem InWord.step_blank (h : InWord letters start p) (hkeyword : wordOf letters = kind.keyword)
    (hc : isBlank c = true) (found : List Block) (o : Nat) :
    ∃ p' : Place, AfterKeyword kind start p'
      ∧ step ⟨o, .code, p, found⟩ c = ⟨o + c.utf8Size, .code, p', found⟩ := by
  obtain ⟨hq, hs, hn⟩ := isBlank_ne hc
  have hn' : ¬ isNameChar c = true := by
    rw [hn]
    exact Bool.false_ne_true
  rcases h with rfl | ⟨before, first, rfl⟩
  · refine ⟨.keyword kind start, Or.inl rfl, ?_⟩
    rw [Scan.step_outside rfl rfl, Zone.next_eq_code rfl hq hs, Place.next, if_neg hn',
      if_pos hc, hkeyword, ofKeyword?_keyword]
  · refine ⟨.header before first start kind.keyword, Or.inr ⟨before, first, rfl⟩, ?_⟩
    rw [Scan.step_outside rfl rfl, Zone.next_eq_code rfl hq hs, Place.next, if_neg hn',
      if_pos hc, hkeyword]

/-- Further blanks after a keyword. -/
theorem AfterKeyword.run_gap (h : AfterKeyword kind start p) (hgap : IsGap gap)
    (found : List Block) (o : Nat) :
    run ⟨o, .code, p, found⟩ gap = ⟨o + width gap, .code, p, found⟩ := by
  rcases h with rfl | ⟨before, first, rfl⟩
  · refine Scan.run_gap hgap o rfl fun o c hc => ?_
    rw [Place.next, (isBlank_ne hc).2.2, if_neg Bool.false_ne_true, if_pos hc]
  · refine Scan.run_gap hgap o rfl fun o c hc => ?_
    rw [Place.next, (isBlank_ne hc).2.2, if_neg Bool.false_ne_true, if_pos hc]

/-- A letter after a keyword and blanks starts the name. -/
theorem AfterKeyword.next (h : AfterKeyword kind start p) (hc : isNameChar c = true) (o : Nat) :
    p.isOutside = true ∧ p.next o c = .name kind start o [c] := by
  rcases h with rfl | ⟨before, first, rfl⟩
  · exact ⟨rfl, by rw [Place.next, if_pos hc]⟩
  · refine ⟨rfl, ?_⟩
    rw [Place.next, if_pos hc, ofKeyword?_keyword]

/-- A name, a possibly empty gap and an opening brace after a keyword and blanks. -/
theorem AfterKeyword.run_label (h : AfterKeyword kind start p) (hname : IsName name)
    (hgap' : IsGap gap') (o : Nat) :
    (run ⟨o, .code, p, found⟩ (name ++ (gap' ++ ['{']))).place
      = .body ⟨kind, String.ofList name, start⟩ 0 [] := by
  have hkeyword : run ⟨o, .code, .keyword kind start, found⟩ (name ++ (gap' ++ ['{'])) = _ :=
    Scan.run_label hname hgap' o
  obtain ⟨c, rest, rfl⟩ := List.exists_cons_of_ne_nil hname.1
  have hc : isNameChar c = true := hname.2 c (List.mem_cons_self ..)
  obtain ⟨hp, hnext⟩ := h.next hc o
  have hkind : AfterKeyword kind start (.keyword kind start) := Or.inl rfl
  -- with the first letter of the name both places have become one
  have hsame : step ⟨o, .code, p, found⟩ c = step ⟨o, .code, .keyword kind start, found⟩ c := by
    rw [Scan.step_outside rfl hp, Scan.step_outside rfl rfl, hnext, (hkind.next hc o).2]
  rw [List.cons_append, run_cons, hsame, ← run_cons, ← List.cons_append, hkeyword]

/-- A header and an opening brace lead into the body, from wherever a word may
    start. -/
theorem run_header (hz : z.isCode = true) (hp : p.isOutside = true) (hword : p.inWord = false)
    (h : IsHeader kind name head) (o : Nat) :
    (run ⟨o, z, p, found⟩ (head ++ ['{'])).place
      = .body ⟨kind, String.ofList name, o⟩ 0 [] := by
  obtain ⟨gap, gap', hne, hgap, hname, hgap', rfl⟩ := h
  obtain ⟨c, rest, hkeyword⟩ := List.exists_cons_of_ne_nil (isName_keyword kind).1
  obtain ⟨b, gap, rfl⟩ := List.exists_cons_of_ne_nil hne
  have hletters := (isName_keyword kind).2
  rw [hkeyword] at hletters
  have hb : isBlank b = true := hgap b (List.mem_cons_self ..)
  have hof : wordOf (rest.reverse ++ [c]) = kind.keyword := by
    rw [wordOf, List.reverse_append, List.reverse_reverse, List.reverse_singleton,
      List.singleton_append, ← hkeyword, String.ofList_toList]
  obtain ⟨p₁, hfirst, hstep⟩ := exists_inWord hz hp hword
    (hletters c (List.mem_cons_self ..)) found o
  obtain ⟨p₂, hlast, hrun⟩ := hfirst.run
    (fun d hd => hletters d (List.mem_cons_of_mem _ hd)) found (o + c.utf8Size)
  obtain ⟨p₃, hafter, hblank⟩ := hlast.step_blank hof hb found
    (o + c.utf8Size + width rest)
  have hgaps := hafter.run_gap
    (fun d hd => hgap d (List.mem_cons_of_mem _ hd)) found
    (o + c.utf8Size + width rest + b.utf8Size)
  have hshape : kind.keyword.toList ++ (b :: gap ++ (name ++ gap')) ++ ['{']
      = c :: (rest ++ b :: (gap ++ (name ++ (gap' ++ ['{'])))) := by
    rw [hkeyword]
    simp only [List.append_assoc, List.cons_append]
  rw [hshape, run_cons, hstep, run_append, hrun, run_cons, hblank, run_append, hgaps,
    hafter.run_label hname hgap']

/-! ## Bodies -/

/-- Blocks found stay found. -/
theorem suffix_found_run (s : Scan) (text : List Char) : s.found <:+ (s.run text).found := by
  induction text generalizing s with
  | nil => exact List.suffix_refl _
  | cons c text ih =>
      refine List.IsSuffix.trans ?_ (ih (s.step c))
      rw [step]
      split
      · split
        · split
          · exact List.suffix_refl _
          · split
            · split
              · exact List.suffix_cons _ _
              · exact List.suffix_refl _
            · exact List.suffix_refl _
        · exact List.suffix_refl _
      · split <;> exact List.suffix_refl _

/-- A body that is left is left at a brace in code that closes it. -/
theorem exists_close {opened : Header} {d : Nat} {text : List Char}
    (hbody : s.place = .body opened d text) (hout : (s.run more).place.isOutside = true) :
    ∃ (inner rest text' : List Char), more = inner ++ '}' :: rest
      ∧ (s.run inner).place = .body opened 0 text' ∧ (s.run inner).zone.isCode = true := by
  induction more generalizing s d text with
  | nil =>
      rw [run_nil, hbody] at hout
      cases hout
  | cons c more ih =>
      obtain ⟨o, z, p, found⟩ := s
      obtain rfl : p = .body opened d text := hbody
      -- unless this character closes the body, it is one of the body
      have hgo : ∀ d' : Nat, (step ⟨o, z, .body opened d text, found⟩ c).place
          = .body opened d' (c :: text) → ∃ (inner rest text' : List Char),
            c :: more = inner ++ '}' :: rest
            ∧ (run ⟨o, z, .body opened d text, found⟩ inner).place = .body opened 0 text'
            ∧ (run ⟨o, z, .body opened d text, found⟩ inner).zone.isCode = true := by
        intro d' hplace
        obtain ⟨inner, rest, text', hmore, hinner⟩ := ih hplace hout
        exact ⟨c :: inner, rest, text', by rw [hmore]; rfl, hinner⟩
      by_cases hz : z.isCode = true
      · by_cases hopen : c = '{'
        · subst hopen
          exact hgo (d + 1) (by rw [step_open hz])
        by_cases hclose : c = '}'
        · subst hclose
          cases d with
          | zero => exact ⟨[], more, text, rfl, rfl, hz⟩
          | succ d => exact hgo d (by rw [step_close hz])
        exact hgo d (by rw [Scan.step_body c fun _ => ⟨hopen, hclose⟩])
      · exact hgo d (by rw [Scan.step_body c fun hz' => absurd hz' hz])

/-- The brace in code that closes a body. -/
theorem found_of_close {opened : Header} {text : List Char}
    (hbody : s.place = .body opened 0 text) (hz : s.zone.isCode = true) :
    (s.step '}').found = ⟨opened, String.ofList text.reverse⟩ :: s.found := by
  obtain ⟨o, z, p, found⟩ := s
  obtain rfl : p = .body opened 0 text := hbody
  rw [step_finish hz]

/-- An open body is closed later, by a brace of the text that follows, and its block is
    found. -/
theorem exists_found {opened : Header} {d : Nat} {text : List Char}
    (hbody : (Scan.start.run t).place = .body opened d text)
    (hout : (Scan.start.run (t ++ more)).place.isOutside = true) :
    ∃ b ∈ (Scan.start.run (t ++ more)).found, b.header = opened
      ∧ ∃ stop : Nat, b.EndsAt (t ++ more) stop ∧ width t < stop := by
  rw [run_append] at hout
  obtain ⟨inner, rest, text', rfl, hplace, hzone⟩ := exists_close hbody hout
  have hreads := reads (t ++ inner)
  have hkeeps := keeps (t ++ inner)
  rw [← run_append] at hplace hzone
  obtain ⟨before, head, hspans, -, hcut⟩ := hkeeps.spans hreads hplace hzone
  have hfound : ⟨opened, String.ofList text'.reverse⟩
      ∈ (Scan.start.run (t ++ inner ++ ['}'])).found := by
    rw [hreads.run_snoc, found_of_close hplace hzone]
    exact List.mem_cons_self ..
  have htext : t ++ (inner ++ '}' :: rest) = t ++ inner ++ ['}'] ++ rest := by
    simp only [List.append_assoc, List.singleton_append]
  refine ⟨⟨opened, String.ofList text'.reverse⟩, ?_, rfl, width (t ++ inner ++ ['}']), ?_, ?_⟩
  · rw [htext, run_append]
    exact (suffix_found_run _ rest).subset hfound
  · rw [htext]
    refine Block.EndsAt.append ⟨before, head, hspans, ?_⟩ rest
    rw [String.toList_ofList, ← hcut]
  · simp only [width_append, width_cons, width_nil]
    have hpos := ('}' : Char).utf8Size_pos
    omega

end Scan

/-! ## All blocks -/

variable {t before head more name : List Char} {found : List Block} {kind : BlockKind}

/-- A text has blocks if its scan ends outside of bodies. -/
theorem of_blocks {text : String} (h : blocks text = .ok found) :
    (Scan.start.run text.toList).place.isOutside = true
      ∧ (Scan.start.run text.toList).found = found.reverse := by
  rw [blocks, Scan.result] at h
  cases hplace : (Scan.start.run text.toList).place with
  | body opened d collected =>
      rw [hplace] at h
      cases h
  | _ =>
      rw [hplace] at h
      exact ⟨rfl, by rw [← Except.ok.inj h, List.reverse_reverse]⟩

/-- The header of an open body stands before its brace. -/
theorem Place.Follows.offset_lt {opened : Header} {d : Nat} {text : List Char}
    (h : (Place.body opened d text).Follows t) : opened.offset < width t := by
  obtain ⟨nameStart, _, gap', ⟨hname, _, gap, ⟨-, before, hwidth, rfl⟩, -, -, -, rfl⟩, -, rfl⟩ := h
  have hpos := ('{' : Char).utf8Size_pos
  rw [← hwidth]
  simp only [width_append, width_cons]
  omega

/-- Where a word may start, none ends. -/
theorem IsWordStart.not_endsIn {start : Nat} {word : List Char} (h : IsWordStart t) :
    ¬ EndsIn start word t := by
  rintro ⟨⟨hne, hname⟩, front, -, rfl⟩
  have hlast : (front ++ word).getLast? = some (word.getLast hne) := by
    rw [List.getLast?_append, List.getLast?_eq_some_getLast hne]
    rfl
  have hletter := hname _ (List.getLast_mem hne)
  rw [h _ hlast] at hletter
  cases hletter

/-- A header and a brace open a block that is found, unless they are inside of another
    one. -/
theorem Scan.exists_header
    (hout : (Scan.start.run (before ++ (head ++ '{' :: more))).place.isOutside = true)
    (h : IsHeader kind name head) (hstart : IsWordStart before)
    (hcode : (zoneAfter before).isCode = true)
    (hapart : ∀ b ∈ (Scan.start.run (before ++ (head ++ '{' :: more))).found, ∀ stop : Nat,
      b.EndsAt (before ++ (head ++ '{' :: more)) stop →
      width before ≤ b.header.offset ∨ stop ≤ width before) :
    ∃ b ∈ (Scan.start.run (before ++ (head ++ '{' :: more))).found,
      b.header = ⟨kind, String.ofList name, width before⟩ := by
  have hreads := Scan.reads before
  have hkeeps := Scan.keeps before
  have hzone : (Scan.start.run before).zone.isCode = true := by
    rw [hkeeps.zone]
    exact hcode
  have hplace : (Scan.start.run before).place.isOutside = true := by
    cases hbody : (Scan.start.run before).place with
    | body opened d text =>
        obtain ⟨b, hmem, hheader, stop, hends, hlt⟩ := Scan.exists_found hbody hout
        have hoffset := hreads.place
        rw [hbody] at hoffset
        have hbefore := hoffset.offset_lt
        rcases hapart b hmem stop hends with hle | hle
        · rw [hheader] at hle
          omega
        · omega
    | _ => rfl
  have hword : (Scan.start.run before).place.inWord = false := by
    have hfollows := hreads.place
    cases hcase : (Scan.start.run before).place with
    | word start letters =>
        rw [hcase] at hfollows
        exact absurd hfollows hstart.not_endsIn
    | name kind start nameStart letters =>
        rw [hcase] at hfollows
        exact absurd hfollows.endsIn hstart.not_endsIn
    | _ => rfl
  have hbody : (Scan.start.run (before ++ (head ++ ['{']))).place
      = .body ⟨kind, String.ofList name, width before⟩ 0 [] := by
    rw [Scan.run_append, ← hreads.offset]
    exact Scan.run_header hzone hplace hword h _
  have htext : before ++ (head ++ '{' :: more) = before ++ (head ++ ['{']) ++ more := by
    simp only [List.append_assoc, List.singleton_append]
  rw [htext] at hout ⊢
  obtain ⟨b, hmem, hheader, -⟩ := Scan.exists_found hbody hout
  exact ⟨b, hmem, hheader⟩

/-- **The blocks of a text.**  Each one found spans a part of the text in which its
    header and body stand, outside of literals and comments; each one starts after the
    end of those before it; and wherever, outside of literals, comments and the blocks
    found, a whole keyword is followed by blanks, a name and an opening brace, a block is
    found. -/
theorem blocks_exact {text : String} (h : blocks text = .ok found) :
    (∀ b ∈ found, ∃ before head : List Char, b.Spans text.toList before head)
    ∧ found.Pairwise (fun b later => ∃ stop : Nat, b.EndsAt text.toList stop
        ∧ b.header.offset < stop ∧ stop ≤ later.header.offset)
    ∧ (∀ (before head more name : List Char) (kind : BlockKind),
        text.toList = before ++ (head ++ '{' :: more) → IsHeader kind name head →
        IsWordStart before → (zoneAfter before).isCode = true →
        (∀ b ∈ found, ∀ stop : Nat, b.EndsAt text.toList stop →
          width before ≤ b.header.offset ∨ stop ≤ width before) →
        ∃ b ∈ found, b.header = ⟨kind, String.ofList name, width before⟩) := by
  obtain ⟨hout, hfound⟩ := of_blocks h
  have hkeeps := Scan.keeps text.toList
  have hspans : ∀ b ∈ found, ∃ before head : List Char, b.Spans text.toList before head := by
    intro b hb
    rw [← List.mem_reverse, ← hfound] at hb
    obtain ⟨newer, older, hcut⟩ := List.append_of_mem hb
    obtain ⟨before, head, hspans, -⟩ := hkeeps.found newer older b hcut
    exact ⟨before, head, hspans⟩
  refine ⟨hspans, ?_, ?_⟩
  · have hlater : ∀ (l earlier : List Block), (Scan.start.run text.toList).found = earlier ++ l →
        l.Pairwise fun later b => ∃ stop : Nat, b.EndsAt text.toList stop
          ∧ b.header.offset < stop ∧ stop ≤ later.header.offset := by
      intro l
      induction l with
      | nil => exact fun _ _ => List.Pairwise.nil
      | cons later l ih =>
          intro earlier hcut
          refine List.Pairwise.cons (fun b hb => ?_) (ih (earlier ++ [later]) (by simp [hcut]))
          have hmem : b ∈ found := by
            rw [← List.mem_reverse, ← hfound, hcut]
            exact List.mem_append_right _ (List.mem_cons_of_mem _ hb)
          obtain ⟨before, head, hb'⟩ := hspans b hmem
          have hends : b.EndsAt text.toList _ := ⟨before, head, hb', rfl⟩
          exact ⟨_, hends, hends.offset_lt, hkeeps.endsAt_le hcut hb hends⟩
    exact List.pairwise_reverse.mp (hlater found.reverse [] hfound)
  · intro before head more name kind htext hheader hstart hcode hapart
    rw [htext] at hout hfound hapart
    obtain ⟨b, hmem, hb⟩ := Scan.exists_header hout hheader hstart hcode (by
      intro b hb stop hstop
      rw [hfound, List.mem_reverse] at hb
      exact hapart b hb stop hstop)
    rw [hfound, List.mem_reverse] at hmem
    exact ⟨b, hmem, hb⟩

/-- A keyword that is the name of no block opens one itself, and a brace in a comment
    closes none. -/
theorem blocks_exact_role :
    blocks "model enum Role \x7b// \x7d\nA\x7d" = .ok [⟨⟨.enum, "Role", 6⟩, "// \x7d\nA"⟩]
      ∧ (∃ before head : List Char, Block.Spans ⟨⟨.enum, "Role", 6⟩, "// \x7d\nA"⟩
          "model enum Role \x7b// \x7d\nA\x7d".toList before head)
      ∧ ∃ b ∈ [(⟨⟨.enum, "Role", 6⟩, "// \x7d\nA"⟩ : Block)], b.header = ⟨.enum, "Role", 6⟩ := by
  have h : blocks "model enum Role \x7b// \x7d\nA\x7d"
      = .ok [⟨⟨.enum, "Role", 6⟩, "// \x7d\nA"⟩] := rfl
  obtain ⟨hspans, -, hfinds⟩ := blocks_exact h
  refine ⟨h, hspans _ (List.mem_singleton_self _), ?_⟩
  have hheader : IsHeader .enum "Role".toList "enum Role ".toList :=
    ⟨[' '], [' '], by decide, by decide, by decide, by decide, rfl⟩
  refine hfinds "model ".toList _ _ _ .enum rfl hheader (by decide) rfl fun b hb stop _ => ?_
  obtain rfl := List.mem_singleton.mp hb
  exact Or.inl (by decide)

end Stencil.Schema
