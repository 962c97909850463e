import Stencil.Proofs.Schema.Written

/-! # Passages of a block scan

    What a block scan does on the shapes of schema text, one lemma a shape.  A
    filler between blocks changes nothing but the offset; a balanced text inside
    a body is collected and leaves the depth as it was; a written block is found
    as a whole (`run_written`). -/

namespace Stencil.Schema

open Stencil.Text (isBlank)

/-- The number of bytes of a text. -/
def width : List Char → Nat
  | [] => 0
  | c :: cs => c.utf8Size + width cs

@[simp] theorem width_nil : width [] = 0 := rfl

@[simp] theorem width_cons (c : Char) (cs : List Char) :
    width (c :: cs) = c.utf8Size + width cs := rfl

@[simp] theorem width_append (cs ds : List Char) :
    width (cs ++ ds) = width cs + width ds := by
  induction cs with
  | nil => simp
  | cons c cs ih => simp [ih, Nat.add_assoc]

/-- The characters that steer a scan take one byte each. -/
theorem utf8Size_marks :
    ('"' : Char).utf8Size = 1 ∧ ('/' : Char).utf8Size = 1 ∧ ('\n' : Char).utf8Size = 1
      ∧ ('{' : Char).utf8Size = 1 ∧ ('}' : Char).utf8Size = 1 :=
  ⟨rfl, rfl, rfl, rfl, rfl⟩

/-! ## Zones -/

theorem Zone.next_eq_code {z : Zone} {c : Char} (hz : z.isCode = true)
    (hq : c ≠ '"') (hs : c ≠ '/') : z.next c = .code := by
  cases z with
  | code => rw [Zone.next, if_neg hq, if_neg hs]
  | slash => rw [Zone.next, if_neg hq, if_neg hs]
  | literal => cases hz
  | escape => cases hz
  | comment => cases hz

theorem Zone.next_quote {z : Zone} (hz : z.isCode = true) : z.next '"' = .literal := by
  cases z with
  | code => rfl
  | slash => rfl
  | literal => cases hz
  | escape => cases hz
  | comment => cases hz

/-- A name character is no quote, slash, blank or brace. -/
theorem isNameChar_ne {c : Char} (h : isNameChar c = true) :
    c ≠ '"' ∧ c ≠ '/' ∧ c ≠ '{' ∧ c ≠ '}' ∧ isBlank c = false := by
  refine ⟨?_, ?_, ?_, ?_, ?_⟩
  · rintro rfl; exact absurd h (by decide)
  · rintro rfl; exact absurd h (by decide)
  · rintro rfl; exact absurd h (by decide)
  · rintro rfl; exact absurd h (by decide)
  · cases hb : isBlank c with
    | false => rfl
    | true =>
        exfalso
        simp only [isBlank, Bool.or_eq_true, decide_eq_true_eq] at hb
        rcases hb with (((rfl | rfl) | rfl) | rfl) | rfl <;> exact absurd h (by decide)

theorem isBlank_ne {c : Char} (h : isBlank c = true) :
    c ≠ '"' ∧ c ≠ '/' ∧ isNameChar c = false := by
  refine ⟨?_, ?_, ?_⟩
  · rintro rfl; exact absurd h (by decide)
  · rintro rfl; exact absurd h (by decide)
  · cases hn : isNameChar c with
    | false => rfl
    | true => rw [(isNameChar_ne hn).2.2.2.2] at h; cases h

/-! ## Keywords -/

theorem isName_keyword (kind : BlockKind) : IsName kind.keyword.toList := by
  cases kind <;> decide

theorem ofKeyword?_keyword (kind : BlockKind) :
    BlockKind.ofKeyword? kind.keyword = some kind := by
  cases kind <;> decide

/-- Whether a place is outside of bodies. -/
def Place.isOutside : Place → Bool
  | .body _ _ _ => false
  | _ => true

namespace Scan

/-! ## Runs -/

@[simp] theorem run_nil (s : Scan) : s.run [] = s := rfl

@[simp] theorem run_cons (s : Scan) (c : Char) (cs : List Char) :
    s.run (c :: cs) = (s.step c).run cs := rfl

@[simp] theorem run_append (s : Scan) (cs ds : List Char) :
    s.run (cs ++ ds) = (s.run cs).run ds :=
  List.foldl_append

variable {o n d : Nat} {z : Zone} {p : Place} {opened : Header}
variable {kind : BlockKind} {letters label text : List Char} {found : List Block}

/-! ## Single characters -/

/-- Outside of bodies, a character of code moves the place. -/
theorem step_outside (hz : z.isCode = true) (hp : p.isOutside = true) (c : Char) :
    step ⟨o, z, p, found⟩ c = ⟨o + c.utf8Size, z.next c, p.next o c, found⟩ := by
  rw [step, if_pos hz]
  cases p with
  | body opened depth text => cases hp
  | _ => rfl

/-- Outside of bodies, a character of a literal or comment is passed over. -/
theorem step_idle (hz : ¬ z.isCode = true) (hp : p.isOutside = true) (c : Char) :
    step ⟨o, z, p, found⟩ c = ⟨o + c.utf8Size, z.next c, p, found⟩ := by
  rw [step, if_neg hz]
  cases p with
  | body opened depth text => cases hp
  | _ => rfl

/-- Inside a body, a character other than a brace is collected. -/
theorem step_body (c : Char) (h : z.isCode = true → c ≠ '{' ∧ c ≠ '}') :
    step ⟨o, z, .body opened d text, found⟩ c
      = ⟨o + c.utf8Size, z.next c, .body opened d (c :: text), found⟩ := by
  by_cases hz : z.isCode = true
  · obtain ⟨hopen, hclose⟩ := h hz
    rw [step, if_pos hz]
    show (if c = '{' then _ else _) = _
    rw [if_neg hopen, if_neg hclose]
    rfl
  · rw [step, if_neg hz]
    rfl

/-- Inside a literal or comment of a body, every character is collected. -/
theorem step_inert (c : Char) (hz : z.isCode = false) :
    step ⟨o, z, .body opened d text, found⟩ c
      = ⟨o + c.utf8Size, z.next c, .body opened d (c :: text), found⟩ :=
  step_body c (fun h => absurd (hz.symm.trans h) Bool.false_ne_true)

theorem step_open (hz : z.isCode = true) :
    step ⟨o, z, .body opened d text, found⟩ '{'
      = ⟨o + 1, .code, .body opened (d + 1) ('{' :: text), found⟩ := by
  rw [step, if_pos hz]
  show advance _ _ _ = _
  rw [advance, Zone.next_eq_code hz (by decide) (by decide)]
  rfl

theorem step_close (hz : z.isCode = true) :
    step ⟨o, z, .body opened (d + 1) text, found⟩ '}'
      = ⟨o + 1, .code, .body opened d ('}' :: text), found⟩ := by
  rw [step, if_pos hz]
  show advance _ _ _ = _
  rw [advance, Zone.next_eq_code hz (by decide) (by decide)]
  rfl

theorem step_finish (hz : z.isCode = true) :
    step ⟨o, z, .body opened 0 text, found⟩ '}'
      = ⟨o + 1, .code, .between, ⟨opened, String.ofList text.reverse⟩ :: found⟩ := by
  rw [step, if_pos hz]
  show (Scan.mk _ _ _ _) = _
  rw [advance, Zone.next_eq_code hz (by decide) (by decide)]
  rfl

/-! ## Inside a body -/

/-- The inside of a literal is collected. -/
theorem run_quotable {inside : List Char} (h : Quotable inside) (o : Nat)
    (text : List Char) :
    run ⟨o, .literal, .body opened d text, found⟩ inside
      = ⟨o + width inside, .literal, .body opened d (inside.reverse ++ text), found⟩ := by
  induction h generalizing o text with
  | nil => rfl
  | @plain c rest hq hb _ ih =>
      rw [run_cons, step_inert c rfl]
      rw [show Zone.literal.next c = .literal by rw [Zone.next, if_neg hq, if_neg hb]]
      rw [ih, width_cons, List.reverse_cons, List.append_assoc, Nat.add_assoc]
      rfl
  | @escaped c rest _ ih =>
      rw [run_cons, step_inert '\\' rfl, run_cons]
      rw [show Zone.literal.next '\\' = .escape from rfl]
      rw [step_inert c rfl, show Zone.escape.next c = .literal from rfl]
      rw [ih, width_cons, width_cons, List.reverse_cons, List.reverse_cons,
        List.append_assoc, List.append_assoc, Nat.add_assoc, Nat.add_assoc]
      rfl

/-- A whole literal is collected. -/
theorem run_literal {inside : List Char} (h : Quotable inside) (hz : z.isCode = true) :
    run ⟨o, z, .body opened d text, found⟩ ('"' :: (inside ++ ['"']))
      = ⟨o + width ('"' :: (inside ++ ['"'])), .code,
          .body opened d (('"' :: (inside ++ ['"'])).reverse ++ text), found⟩ := by
  rw [run_cons, step_body '"' fun _ => by decide, Zone.next_quote hz, run_append, run_quotable h,
    run_cons, step_inert '"' rfl, run_nil]
  simp [Zone.next, Nat.add_assoc]

/-- The text of a comment is collected. -/
theorem run_remark {remark : List Char} (h : '\n' ∉ remark) (o : Nat)
    (text : List Char) :
    run ⟨o, .comment, .body opened d text, found⟩ remark
      = ⟨o + width remark, .comment, .body opened d (remark.reverse ++ text), found⟩ := by
  induction remark generalizing o text with
  | nil => rfl
  | cons c rest ih =>
      rw [List.mem_cons, not_or] at h
      rw [run_cons, step_inert c rfl]
      rw [show Zone.comment.next c = .comment by rw [Zone.next, if_neg (Ne.symm h.1)]]
      rw [ih h.2, width_cons, List.reverse_cons, List.append_assoc, Nat.add_assoc]
      rfl

/-- A balanced text in a body is collected, and the depth is what it was.  A
    slash at its end still waits for the character after it. -/
theorem run_balanced {cs : List Char} (h : Balanced cs) (o d : Nat) {z : Zone}
    (text : List Char) (hz : z.isCode = true) (hseam : z = .slash → cs.head? ≠ some '/') :
    ∃ z' : Zone, z'.isCode = true ∧
      run ⟨o, z, .body opened d text, found⟩ cs
        = ⟨o + width cs, z', .body opened d (cs.reverse ++ text), found⟩ := by
  induction h generalizing o d z text with
  | nil => exact ⟨z, hz, rfl⟩
  | @plain c rest hq ho hc hs _ ih =>
      -- only after a slash does a slash leave the code, and the seam rules that out
      have hcode : (z.next c).isCode = true ∧ (z.next c = .slash → c = '/') := by
        by_cases hslash : c = '/'
        · subst hslash
          cases z with
          | code => exact ⟨rfl, fun _ => rfl⟩
          | slash => exact absurd rfl (hseam rfl)
          | literal => cases hz
          | escape => cases hz
          | comment => cases hz
        · rw [Zone.next_eq_code hz hq hslash]
          exact ⟨rfl, fun h => by cases h⟩
      obtain ⟨z', hz', hrun⟩ := ih (o + c.utf8Size) d (c :: text) hcode.1
        (fun hz => hs (hcode.2 hz))
      refine ⟨z', hz', ?_⟩
      rw [run_cons, step_body c (fun _ => ⟨ho, hc⟩), hrun, width_cons, List.reverse_cons,
        List.append_assoc, Nat.add_assoc]
      rfl
  | @literal inside rest hin _ ih =>
      obtain ⟨z', hz', hrun⟩ := ih (o + 1 + width inside + 1) d
        ('"' :: (inside.reverse ++ '"' :: text)) (z := .code) rfl (fun h => by cases h)
      refine ⟨z', hz', ?_⟩
      rw [run_cons, step_body '"' (fun _ => by decide), Zone.next_quote hz, run_append,
        run_quotable hin, run_cons, step_inert '"' rfl]
      rw [show Zone.literal.next '"' = .code from rfl]
      rw [utf8Size_marks.1, hrun]
      simp [Nat.add_assoc, utf8Size_marks]
  | @comment remark rest hin _ ih =>
      have hcode : z = .code := by
        cases z with
        | code => rfl
        | slash => exact absurd rfl (hseam rfl)
        | literal => cases hz
        | escape => cases hz
        | comment => cases hz
      subst hcode
      obtain ⟨z', hz', hrun⟩ := ih (o + 1 + 1 + width remark + 1) d
        ('\n' :: (remark.reverse ++ '/' :: '/' :: text)) (z := .code) rfl (fun h => by cases h)
      refine ⟨z', hz', ?_⟩
      rw [run_cons, step_body '/' (fun _ => by decide), run_cons,
        step_body '/' (fun _ => by decide), run_append]
      rw [show (Zone.code.next '/').next '/' = .comment from rfl, run_remark hin, run_cons,
        step_inert '\n' rfl, show Zone.comment.next '\n' = .code from rfl]
      rw [utf8Size_marks.2.1, utf8Size_marks.2.2.1, hrun]
      simp only [width_cons, width_append, utf8Size_marks, Nat.add_assoc, List.reverse_cons,
        List.reverse_append, List.append_assoc, List.cons_append, List.nil_append]
  | @braces inside rest _ _ ihin ihrest =>
      obtain ⟨z₁, hz₁, hrun₁⟩ := ihin (o + 1) (d + 1) ('{' :: text) (z := .code) rfl
        (fun h => by cases h)
      obtain ⟨z', hz', hrun⟩ := ihrest (o + 1 + width inside + 1) d
        ('}' :: (inside.reverse ++ '{' :: text)) (z := .code) rfl (fun h => by cases h)
      refine ⟨z', hz', ?_⟩
      rw [run_cons, step_open hz, run_append, hrun₁, run_cons, step_close hz₁, hrun]
      simp [Nat.add_assoc, utf8Size_marks]

/-! ## Outside of bodies -/

/-- Blanks are passed over wherever they do not move the place. -/
theorem run_gap {gap : List Char} (hg : IsGap gap) (o : Nat)
    (hp : p.isOutside = true)
    (hstay : ∀ (o : Nat) (c : Char), isBlank c = true → p.next o c = p) :
    run ⟨o, .code, p, found⟩ gap = ⟨o + width gap, .code, p, found⟩ := by
  induction gap generalizing o with
  | nil => rfl
  | cons c rest ih =>
      have hc : isBlank c = true := hg c (List.mem_cons_self ..)
      obtain ⟨hq, hs, -⟩ := isBlank_ne hc
      rw [run_cons, step_outside rfl hp c, hstay o c hc, Zone.next_eq_code rfl hq hs,
        ih (fun d hd => hg d (List.mem_cons_of_mem _ hd)), width_cons, Nat.add_assoc]

/-- Letters are collected by a place that goes on with them. -/
theorem run_letters {place : List Char → Place} {cs : List Char}
    (hplace : ∀ letters : List Char, (place letters).isOutside = true)
    (hnext : ∀ (o : Nat) (letters : List Char) (c : Char), isNameChar c = true →
      (place letters).next o c = place (c :: letters))
    (h : ∀ c ∈ cs, isNameChar c = true) (o : Nat) (letters : List Char) :
    run ⟨o, .code, place letters, found⟩ cs
      = ⟨o + width cs, .code, place (cs.reverse ++ letters), found⟩ := by
  induction cs generalizing o letters with
  | nil => rfl
  | cons c rest ih =>
      have hc : isNameChar c = true := h c (List.mem_cons_self ..)
      obtain ⟨hq, hs, -⟩ := isNameChar_ne hc
      rw [run_cons, step_outside rfl (hplace letters) c, Zone.next_eq_code rfl hq hs,
        hnext o letters c hc, ih (fun d hd => h d (List.mem_cons_of_mem _ hd)), width_cons,
        List.reverse_cons, List.append_assoc, Nat.add_assoc]
      rfl

theorem run_word {cs : List Char} (h : ∀ c ∈ cs, isNameChar c = true) (o : Nat)
    (letters : List Char) :
    run ⟨o, .code, .word n letters, found⟩ cs
      = ⟨o + width cs, .code, .word n (cs.reverse ++ letters), found⟩ :=
  run_letters (fun _ => rfl) (fun _ _ _ hc => by rw [Place.next, if_pos hc]) h o letters

theorem run_name {cs : List Char} (h : ∀ c ∈ cs, isNameChar c = true) (o : Nat)
    {start : Nat} (letters : List Char) :
    run ⟨o, .code, .name kind start n letters, found⟩ cs
      = ⟨o + width cs, .code, .name kind start n (cs.reverse ++ letters), found⟩ :=
  run_letters (fun _ => rfl) (fun _ _ _ hc => by rw [Place.next, if_pos hc]) h o letters

/-- A whole word, and the gap after it, lead from between the blocks into the
    header of a block if the word is a keyword. -/
theorem run_keyword {gap : List Char} (hne : gap ≠ []) (hg : IsGap gap) (o : Nat) :
    run ⟨o, .code, .between, found⟩ (kind.keyword.toList ++ gap)
      = ⟨o + width (kind.keyword.toList ++ gap), .code, .keyword kind o, found⟩ := by
  obtain ⟨c, rest, hword⟩ := List.exists_cons_of_ne_nil (isName_keyword kind).1
  obtain ⟨b, gap, rfl⟩ := List.exists_cons_of_ne_nil hne
  have hname := (isName_keyword kind).2
  rw [hword] at hname
  have hc : isNameChar c = true := hname c (List.mem_cons_self ..)
  obtain ⟨hq, hs, -⟩ := isNameChar_ne hc
  have hb : isBlank b = true := hg b (List.mem_cons_self ..)
  obtain ⟨hbq, hbs, hbn⟩ := isBlank_ne hb
  have hof : wordOf (rest.reverse ++ [c]) = kind.keyword := by
    rw [wordOf, List.reverse_append, List.reverse_reverse, List.reverse_singleton,
      List.singleton_append, ← hword, String.ofList_toList]
  have hrun : run ⟨o, .code, .between, found⟩ (c :: rest)
      = ⟨o + width (c :: rest), .code, .word o (rest.reverse ++ [c]), found⟩ := by
    rw [run_cons, step_outside rfl rfl c, Zone.next_eq_code rfl hq hs, Place.next, if_pos hc,
      run_word (fun d hd => hname d (List.mem_cons_of_mem _ hd)), width_cons, Nat.add_assoc]
  rw [hword, run_append, hrun, run_cons, step_outside rfl rfl b,
    Zone.next_eq_code rfl hbq hbs]
  rw [Place.next, hbn, if_neg Bool.false_ne_true, if_pos hb, hof, ofKeyword?_keyword]
  rw [run_gap (fun d hd => hg d (List.mem_cons_of_mem _ hd)) _ rfl]
  · rw [width_append, width_cons b, Nat.add_assoc, Nat.add_assoc]
  · intro o d hd
    rw [Place.next, (isBlank_ne hd).2.2, if_neg Bool.false_ne_true, if_pos hd]

/-- A name, a possibly empty gap and an opening brace lead from the blanks after
    a keyword into the body. -/
theorem run_label {name gap : List Char} (hn : IsName name) (hg : IsGap gap) (o : Nat)
    {start : Nat} :
    run ⟨o, .code, .keyword kind start, found⟩ (name ++ (gap ++ ['{']))
      = ⟨o + width (name ++ (gap ++ ['{'])), .code,
          .body ⟨kind, String.ofList name, start⟩ 0 [], found⟩ := by
  obtain ⟨c, rest, rfl⟩ := List.exists_cons_of_ne_nil hn.1
  have hc : isNameChar c = true := hn.2 c (List.mem_cons_self ..)
  obtain ⟨hq, hs, -⟩ := isNameChar_ne hc
  have hof : wordOf (rest.reverse ++ [c]) = String.ofList (c :: rest) := by
    rw [wordOf, List.reverse_append, List.reverse_reverse, List.reverse_singleton,
      List.singleton_append]
  rw [run_append, run_cons, step_outside rfl rfl c,
    Zone.next_eq_code rfl hq hs, Place.next, if_pos hc,
    run_name (fun d hd => hn.2 d (List.mem_cons_of_mem _ hd))]
  cases gap with
  | nil =>
      rw [List.nil_append, run_cons, run_nil, step_outside rfl rfl '{',
        Zone.next_eq_code rfl (by decide) (by decide), Place.next, if_neg (by decide),
        if_neg (by decide), if_pos rfl, hof]
      simp [Nat.add_assoc]
  | cons b gap =>
      have hb : isBlank b = true := hg b (List.mem_cons_self ..)
      obtain ⟨hbq, hbs, hbn⟩ := isBlank_ne hb
      rw [List.cons_append, run_cons, step_outside rfl rfl b,
        Zone.next_eq_code rfl hbq hbs, Place.next, hbn, if_neg Bool.false_ne_true, if_pos hb,
        hof, run_append,
        run_gap (fun d hd => hg d (List.mem_cons_of_mem _ hd)) _ rfl]
      · rw [run_cons, run_nil, step_outside rfl rfl '{',
          Zone.next_eq_code rfl (by decide) (by decide), Place.next, if_neg (by decide),
          if_neg (by decide), if_pos rfl]
        simp [Nat.add_assoc]
      · intro o d hd
        rw [Place.next, (isBlank_ne hd).2.2, if_neg Bool.false_ne_true, if_pos hd]

/-- The text of a comment between blocks is passed over. -/
theorem run_remark_between {remark : List Char} (h : '\n' ∉ remark) (o : Nat) :
    run ⟨o, .comment, .between, found⟩ remark
      = ⟨o + width remark, .comment, .between, found⟩ := by
  induction remark generalizing o with
  | nil => rfl
  | cons c rest ih =>
      rw [List.mem_cons, not_or] at h
      rw [run_cons, step_idle (z := .comment) (fun hz => by cases hz) rfl, Zone.next,
        if_neg (Ne.symm h.1), ih h.2, width_cons, Nat.add_assoc]

/-- A filler between blocks changes nothing but the offset. -/
theorem run_filler {filler : List Char} (h : Filler filler) (o : Nat) :
    run ⟨o, .code, .between, found⟩ filler
      = ⟨o + width filler, .code, .between, found⟩ := by
  induction h generalizing o with
  | nil => rfl
  | @blank c rest hc _ ih =>
      obtain ⟨hq, hs, hn⟩ := isBlank_ne hc
      rw [run_cons, step_outside rfl rfl c, Zone.next_eq_code rfl hq hs,
        Place.next, hn, if_neg Bool.false_ne_true, ih, width_cons, Nat.add_assoc]
  | @comment remark rest hin _ ih =>
      rw [run_cons, run_cons, run_append]
      show run (run ⟨o + 1 + 1, .comment, .between, found⟩ remark) ('\n' :: rest) = _
      rw [run_remark_between hin, run_cons]
      show run ⟨o + 1 + 1 + width remark + 1, .code, .between, found⟩ rest = _
      rw [ih]
      simp only [width_cons, width_append, utf8Size_marks, Nat.add_assoc]

/-- A written block with a balanced body is found as a whole. -/
theorem run_written {name body : List Char} (hw : Written kind name body text)
    (hb : Balanced body) (o : Nat) :
    run ⟨o, .code, .between, found⟩ text
      = ⟨o + width text, .code, .between,
          ⟨⟨kind, String.ofList name, o⟩, String.ofList body⟩ :: found⟩ := by
  obtain ⟨gap, gap', hne, hg, hn, hg', rfl⟩ := hw
  -- the body ends at depth zero, so the next brace closes the block
  obtain ⟨z, hz, hbody⟩ := run_balanced (z := .code) hb
    (o + width (kind.keyword.toList ++ gap) + width (name ++ (gap' ++ ['{']))) 0 [] rfl
    (fun h => by cases h)
  rw [show kind.keyword.toList ++ (gap ++ (name ++ (gap' ++ '{' :: (body ++ ['}']))))
    = (kind.keyword.toList ++ gap) ++ ((name ++ (gap' ++ ['{'])) ++ (body ++ ['}'])) by simp]
  rw [run_append, run_keyword hne hg, run_append, run_label hn hg', run_append, hbody,
    run_cons, run_nil, step_finish hz]
  simp [Nat.add_assoc, utf8Size_marks]

end Scan

end Stencil.Schema
