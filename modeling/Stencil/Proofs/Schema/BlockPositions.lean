import Stencil.Proofs.Schema.Extent
import Stencil.Proofs.Schema.Marks

/-! # Blocks by positions

    A search by positions finds what the scan by characters does, and nothing goes wrong
    on the way (`blocks_eq`).  The search looks ahead where the scan goes on from place to
    place: after a header that is none, it is back at the end of the first word, and the
    scan has come to the same place (`Scan.result_run_braceless`). -/

namespace Stencil.Schema

open Stencil.Text (isBlank)

variable {c : Char} {rest gap gap' name word : List Char} {found : List Block} {o n : Nat}

/-! ## What a scan comes to -/

namespace Scan

variable {p q : Place}

/-- A slash that no other slash follows is passed over. -/
theorem result_run_slash (h : rest.head? ≠ some '/') :
    (run ⟨o, .slash, p, found⟩ rest).result = (run ⟨o, .code, p, found⟩ rest).result := by
  cases rest with
  | nil => rfl
  | cons c rest =>
      have hnext : Zone.slash.next c = Zone.code.next c := by
        rw [Zone.next, Zone.next, if_neg fun hc : c = '/' => h (congrArg some hc),
          if_neg fun hc : c = '/' => h (congrArg some hc)]
      have hstep : step ⟨o, .slash, p, found⟩ c = step ⟨o, .code, p, found⟩ c := by
        cases hp : p.isOutside with
        | true => rw [step_outside rfl hp, step_outside rfl hp, hnext]
        | false =>
            cases p with
            | body opened d text =>
                by_cases hopen : c = '{'
                · subst hopen
                  rw [step_open rfl, step_open rfl]
                by_cases hclose : c = '}'
                · subst hclose
                  cases d with
                  | zero => rw [step_finish rfl, step_finish rfl]
                  | succ d => rw [step_close rfl, step_close rfl]
                rw [step_body c fun _ => ⟨hopen, hclose⟩, step_body c fun _ => ⟨hopen, hclose⟩,
                  hnext]
            | _ => cases hp
      rw [run_cons, run_cons, hstep]

/-- A comment ends before the newline as well as after it. -/
theorem result_run_comment (hp : p = .between ∨ ∃ opened d text, p = .body opened d text)
    (h : ∀ c, rest.head? = some c → c = '\n') :
    (run ⟨o, .comment, p, found⟩ rest).result = (run ⟨o, .code, p, found⟩ rest).result := by
  cases rest with
  | nil => rfl
  | cons c rest =>
      obtain rfl := h c rfl
      rcases hp with rfl | ⟨opened, d, text, rfl⟩
      · rfl
      · rw [run_cons, run_cons, step_body '\n' fun _ => by decide,
          step_body '\n' fun _ => by decide]
        rfl

/-- Two places outside of bodies that go on alike. -/
theorem result_run_next (hp : p.isOutside = true) (hq : q.isOutside = true)
    (h : ∀ c, rest.head? = some c → ∀ o, p.next o c = q.next o c) :
    (run ⟨o, .code, p, found⟩ rest).result = (run ⟨o, .code, q, found⟩ rest).result := by
  cases rest with
  | nil =>
      have hresult : ∀ r : Place, r.isOutside = true →
          (Scan.mk o .code r found).result = .ok found.reverse := by
        intro r hr
        cases r with
        | body opened d text => cases hr
        | _ => rfl
      rw [run_nil, run_nil, hresult p hp, hresult q hq]
  | cons c rest =>
      rw [run_cons, run_cons, step_outside rfl hp, step_outside rfl hq, h c rfl o]

/-- Blanks do nothing between blocks, in the blanks after a keyword and in those after a
    name. -/
theorem run_gap_between (hgap : IsGap gap) :
    run ⟨o, .code, .between, found⟩ gap = ⟨o + width gap, .code, .between, found⟩ :=
  run_gap hgap o rfl fun o c hc => by
    rw [Place.next, if_neg (by rw [(isBlank_ne hc).2.2]; exact Bool.false_ne_true)]

theorem run_gap_keyword {kind : BlockKind} (hgap : IsGap gap) :
    run ⟨o, .code, .keyword kind n, found⟩ gap = ⟨o + width gap, .code, .keyword kind n, found⟩ :=
  run_gap hgap o rfl fun o c hc => by
    rw [Place.next, if_neg (by rw [(isBlank_ne hc).2.2]; exact Bool.false_ne_true), if_pos hc]

theorem run_gap_header {kind : BlockKind} {start : Nat} {label : String} (hgap : IsGap gap) :
    run ⟨o, .code, .header kind start n label, found⟩ gap
      = ⟨o + width gap, .code, .header kind start n label, found⟩ :=
  run_gap hgap o rfl fun o c hc => by
    rw [Place.next, if_neg (by rw [(isBlank_ne hc).2.2]; exact Bool.false_ne_true), if_pos hc]

/-- The letters of a word, from between the blocks. -/
theorem run_word_between (hword : IsName word) :
    run ⟨o, .code, .between, found⟩ word
      = ⟨o + width word, .code, .word o word.reverse, found⟩ := by
  obtain ⟨c, word, rfl⟩ := List.exists_cons_of_ne_nil hword.1
  have hc : isNameChar c = true := hword.2 c (List.mem_cons_self ..)
  rw [run_cons, step_outside rfl rfl c,
    Zone.next_eq_code rfl (isNameChar_ne hc).1 (isNameChar_ne hc).2.1, Place.next, if_pos hc,
    run_word fun d hd => hword.2 d (List.mem_cons_of_mem _ hd), width_cons, Nat.add_assoc,
    List.reverse_cons]

/-- The letters of a word, from the blanks after a keyword. -/
theorem run_name_keyword {kind : BlockKind} (hname : IsName name) :
    run ⟨o, .code, .keyword kind n, found⟩ name
      = ⟨o + width name, .code, .name kind n o name.reverse, found⟩ := by
  obtain ⟨c, name, rfl⟩ := List.exists_cons_of_ne_nil hname.1
  have hc : isNameChar c = true := hname.2 c (List.mem_cons_self ..)
  rw [run_cons, step_outside rfl rfl c,
    Zone.next_eq_code rfl (isNameChar_ne hc).1 (isNameChar_ne hc).2.1, Place.next, if_pos hc,
    run_name fun d hd => hname.2 d (List.mem_cons_of_mem _ hd), width_cons, Nat.add_assoc,
    List.reverse_cons]

theorem wordOf_reverse (cs : List Char) : wordOf cs.reverse = String.ofList cs := by
  rw [wordOf, List.reverse_reverse]

/-! ## Headers that are none -/

/-- A word that is no keyword. -/
theorem result_run_ordinary (hword : IsName word)
    (hnone : BlockKind.ofKeyword? (String.ofList word) = none)
    (hrest : ∀ c, rest.head? = some c → isNameChar c = false) :
    (run ⟨o, .code, .between, found⟩ (word ++ rest)).result
      = (run ⟨o + width word, .code, .between, found⟩ rest).result := by
  rw [run_append, run_word_between hword]
  refine result_run_next rfl rfl fun c hc o' => ?_
  simp only [Place.next, hrest c hc, wordOf_reverse, hnone, Bool.false_eq_true, if_false, ite_self]

/-- A keyword without a name after it. -/
theorem result_run_nameless {kind : BlockKind} (hgap : IsGap gap)
    (hrest : ∀ c, rest.head? = some c → isNameChar c = false ∧ isBlank c = false) :
    (run ⟨o, .code, .between, found⟩ (kind.keyword.toList ++ (gap ++ rest))).result
      = (run ⟨o + width kind.keyword.toList, .code, .between, found⟩ (gap ++ rest)).result := by
  cases gap with
  | nil =>
      rw [List.nil_append, run_append, run_word_between (isName_keyword kind)]
      refine result_run_next rfl rfl fun c hc o' => ?_
      simp only [Place.next, hrest c hc, Bool.false_eq_true, if_false]
  | cons b gap =>
      rw [← List.append_assoc, run_append _ (_ ++ _), run_keyword (List.cons_ne_nil b gap) hgap,
        run_append _ (b :: gap), run_gap_between hgap, width_append, Nat.add_assoc]
      refine result_run_next rfl rfl fun c hc o' => ?_
      simp only [Place.next, hrest c hc, Bool.false_eq_true, if_false]

/-- A keyword and a name without a brace after them.  The name may be a keyword itself. -/
theorem result_run_braceless {kind : BlockKind} (hne : gap ≠ []) (hgap : IsGap gap)
    (hname : IsName name) (hgap' : IsGap gap')
    (hend : ∀ c, (gap' ++ rest).head? = some c → isNameChar c = false)
    (hrest : ∀ c, rest.head? = some c → isBlank c = false ∧ c ≠ '{') :
    (run ⟨o, .code, .between, found⟩
        (kind.keyword.toList ++ (gap ++ (name ++ (gap' ++ rest))))).result
      = (run ⟨o + width kind.keyword.toList, .code, .between, found⟩
          (gap ++ (name ++ (gap' ++ rest)))).result := by
  -- one scan has read a name now, the other one a word
  rw [← List.append_assoc, run_append _ (_ ++ _), run_keyword hne hgap, run_append _ name,
    run_name_keyword hname, run_append _ gap, run_gap_between hgap, run_append _ name,
    run_word_between hname, width_append, ← Nat.add_assoc o]
  cases gap' with
  | nil =>
      refine result_run_next rfl rfl fun c hc o' => ?_
      rw [Place.next_eq_between rfl o' (hend c hc) (hrest c hc).1 (hrest c hc).2,
        Place.next_eq_between rfl o' (hend c hc) (hrest c hc).1 (hrest c hc).2]
  | cons b gap' =>
      have hb : isBlank b = true := hgap' b (List.mem_cons_self ..)
      obtain ⟨hq, hs, hn⟩ := isBlank_ne hb
      have hblanks : IsGap gap' := fun c hc => hgap' c (List.mem_cons_of_mem _ hc)
      rw [List.cons_append, run_cons, run_cons, step_outside rfl rfl, step_outside rfl rfl,
        Zone.next_eq_code rfl hq hs, run_append, run_append]
      simp only [Place.next, hn, hb, Bool.false_eq_true, if_false, if_true, wordOf_reverse]
      rw [run_gap_header hblanks]
      cases hinner : BlockKind.ofKeyword? (String.ofList name) with
      | none =>
          simp only [run_gap_between hblanks]
          refine result_run_next rfl rfl fun c hc o' => ?_
          simp only [Place.next, hrest c hc, hinner, Bool.false_eq_true, if_false]
      | some inner =>
          simp only [run_gap_keyword hblanks]
          refine result_run_next rfl rfl fun c hc o' => ?_
          simp only [Place.next, hrest c hc, hinner, Bool.false_eq_true, if_false]

/-! ## Literals and comments -/

variable {inside remark text : List Char} {opened : Header} {d : Nat}

/-- A literal between blocks is passed over. -/
theorem run_quotable_between (h : Quotable inside) :
    run ⟨o, .literal, .between, found⟩ inside = ⟨o + width inside, .literal, .between, found⟩ := by
  induction h generalizing o with
  | nil => rfl
  | @plain c rest hq hb _ ih =>
      rw [run_cons, step_idle (z := .literal) Bool.false_ne_true rfl, Zone.next, if_neg hq,
        if_neg hb, ih, width_cons, Nat.add_assoc]
  | @escaped c rest _ ih =>
      rw [run_cons, step_idle (z := .literal) Bool.false_ne_true rfl, run_cons]
      show run (step ⟨_, .escape, .between, found⟩ c) rest = _
      rw [step_idle (z := .escape) Bool.false_ne_true rfl]
      show run ⟨_, .literal, .between, found⟩ rest = _
      rw [ih, width_cons, width_cons, Nat.add_assoc, Nat.add_assoc]

theorem run_literal_between (h : Quotable inside) :
    run ⟨o, .code, .between, found⟩ ('"' :: (inside ++ ['"']))
      = ⟨o + width ('"' :: (inside ++ ['"'])), .code, .between, found⟩ := by
  have hopen : step ⟨o, .code, .between, found⟩ '"' = ⟨o + 1, .literal, .between, found⟩ := rfl
  have hclose : ∀ o : Nat, step ⟨o, .literal, .between, found⟩ '"'
      = ⟨o + 1, .code, .between, found⟩ := fun _ => rfl
  rw [run_cons, hopen, run_append, run_quotable_between h, run_cons, hclose, run_nil]
  simp [Nat.add_assoc, utf8Size_marks]

/-- A literal between blocks that is not closed is the rest of the text. -/
theorem result_run_unclosed_between (h : Quotable inside) (hrest : rest = [] ∨ rest = ['\\']) :
    (run ⟨o, .code, .between, found⟩ ('"' :: (inside ++ rest))).result = .ok found.reverse := by
  have hopen : step ⟨o, .code, .between, found⟩ '"' = ⟨o + 1, .literal, .between, found⟩ := rfl
  rw [run_cons, hopen, run_append, run_quotable_between h]
  rcases hrest with rfl | rfl <;> rfl

/-- A literal in a body that is not closed leaves the body open. -/
theorem result_run_unclosed (h : Quotable inside) (hrest : rest = [] ∨ rest = ['\\']) :
    (run ⟨o, .code, .body opened d text, found⟩ ('"' :: (inside ++ rest))).result
      = .error opened := by
  rw [run_cons, step_body '"' fun _ => by decide, run_append]
  show (run (run ⟨_, .literal, _, found⟩ inside) rest).result = _
  rw [run_quotable h]
  rcases hrest with rfl | rfl
  · rfl
  · rw [run_cons, step_inert '\\' rfl]
    rfl

/-- A comment between blocks is passed over. -/
theorem result_run_remark_between (hremark : '\n' ∉ remark)
    (hrest : ∀ c, rest.head? = some c → c = '\n') :
    (run ⟨o, .code, .between, found⟩ ('/' :: '/' :: remark ++ rest)).result
      = (run ⟨o + width ('/' :: '/' :: remark), .code, .between, found⟩ rest).result := by
  have hslashes : run ⟨o, .code, .between, found⟩ ['/', '/']
      = ⟨o + width ['/', '/'], .comment, .between, found⟩ := rfl
  have hcomment : '/' :: '/' :: remark = ['/', '/'] ++ remark := rfl
  rw [hcomment, List.append_assoc, run_append, hslashes, run_append, run_remark_between hremark,
    result_run_comment (Or.inl rfl) hrest, width_append, Nat.add_assoc]

/-- A comment in a body is collected. -/
theorem result_run_remark (hremark : '\n' ∉ remark)
    (hrest : ∀ c, rest.head? = some c → c = '\n') :
    (run ⟨o, .code, .body opened d text, found⟩ ('/' :: '/' :: remark ++ rest)).result
      = (run ⟨o + width ('/' :: '/' :: remark), .code,
          .body opened d (('/' :: '/' :: remark).reverse ++ text), found⟩ rest).result := by
  have hslashes : run ⟨o, .code, .body opened d text, found⟩ ['/', '/']
      = ⟨o + width ['/', '/'], .comment, .body opened d (['/', '/'].reverse ++ text), found⟩ := rfl
  have hcomment : '/' :: '/' :: remark = ['/', '/'] ++ remark := rfl
  rw [hcomment, List.append_assoc, run_append, hslashes, run_append, run_remark hremark,
    result_run_comment (Or.inr ⟨_, _, _, rfl⟩) hrest, width_append, Nat.add_assoc,
    List.reverse_append, List.append_assoc]

end Scan

namespace Positions

variable {t before inside remark text : List Char} {position d d' : Nat} {opened : Header}

/-! ## The closing brace -/

/-- The search for a closing brace from a position on, with the number of open ones. -/
def closingFrom (t : List Char) (position depth : Nat) : Checked (Option Nat) :=
  walk (marksOf t).length (closingTurn (marksOf t)) (fun _ => .ok none) position depth

/-- What the search and the scan come to from inside of a body: the body never closes, or
    both know where it does. -/
inductive Closes (t rest text : List Char) (position d : Nat) (opened : Header)
    (found : List Block) : Prop where
  | never : closingFrom t position (d + 1) = .ok none →
      (Scan.run ⟨position, .code, .body opened d text, found⟩ rest).result = .error opened →
      Closes t rest text position d opened found
  | closed (inner after : List Char) : rest = inner ++ '}' :: after →
      closingFrom t position (d + 1) = .ok (some (position + width inner)) →
      (Scan.run ⟨position, .code, .body opened d text, found⟩ rest).result
        = (Scan.run ⟨position + width inner + 1, .code, .between,
            ⟨opened, String.ofList (text.reverse ++ inner)⟩ :: found⟩ after).result →
      Closes t rest text position d opened found

/-- What both come to after a part that both have read, they come to before it. -/
theorem Closes.move (part : List Char)
    (h : Closes t rest (part.reverse ++ text) (position + width part) d' opened found)
    (hwalk : closingFrom t position (d + 1) = closingFrom t (position + width part) (d' + 1))
    (hrun : (Scan.run ⟨position, .code, .body opened d text, found⟩ (part ++ rest)).result
      = (Scan.run ⟨position + width part, .code, .body opened d' (part.reverse ++ text), found⟩
          rest).result) :
    Closes t (part ++ rest) text position d opened found := by
  cases h with
  | never hnone herror => exact .never (hwalk.trans hnone) (hrun.trans herror)
  | closed inner after hrest hsome hresult =>
      subst hrest
      refine .closed (part ++ inner) after ?_ ?_ ?_
      · rw [List.append_assoc]
      · rw [hwalk, hsome, width_append, Nat.add_assoc]
      · rw [hrun, hresult, width_append, ← Nat.add_assoc, List.reverse_append,
          List.reverse_reverse, List.append_assoc]

/-- A byte that is no quote, slash or brace is passed over. -/
theorem closingTurn_plain {m : List Char} (hlt : position < m.length) (hquote : m[position] ≠ '"')
    (hslash : m[position] ≠ '/') (hopen : m[position] ≠ '{') (hclose : m[position] ≠ '}') :
    closingTurn m position hlt d = .ok (.on (position + 1) d) := by
  have hcomment : ¬ startsComment m position hlt = true := by
    rw [startsComment, decide_eq_false hslash, Bool.false_and]
    exact Bool.false_ne_true
  rw [closingTurn, if_neg hquote, if_neg hcomment, if_neg hopen, if_neg hclose]

/-- A brace, a slash alone, or a character that does nothing. -/
theorem closes_single (h : At t position before (c :: rest)) (hquote : c ≠ '"')
    (hcomment : c = '/' → rest.head? ≠ some '/')
    (hnext : ∀ d', Closes t rest (c :: text) (position + width [c]) d' opened found) :
    Closes t (c :: rest) text position d opened found := by
  have hlow : c = '/' ∨ c = '{' ∨ c = '}' → ¬ IsHigh c := by
    rintro (rfl | rfl | rfl) <;> decide
  have hmoves : ∀ {d' : Nat}, ¬ IsHigh c →
      closingTurn (marksOf t) position h.lt (d + 1) = .ok (.on (position + 1) (d' + 1)) →
      closingFrom t position (d + 1) = closingFrom t (position + width [c]) (d' + 1) := by
    intro d' hc hturn
    refine h.walk_on [c] (List.cons_ne_nil c []) h.lt ?_
    rw [width_cons, width_nil, utf8Size_of_not_isHigh hc]
    exact hturn
  have hnocomment : ∀ hc : ¬ IsHigh c,
      ¬ startsComment (marksOf t) position h.lt = true := by
    intro hc hstarts
    obtain ⟨hslash, hhead⟩ := (h.startsComment hc h.lt).mp hstarts
    exact hcomment hslash hhead
  by_cases hopen : c = '{'
  · subst hopen
    refine (hnext (d + 1)).move ['{'] (hmoves (by decide) ?_) ?_
    · rw [closingTurn, h.getElem (by decide) h.lt, if_neg hquote,
        if_neg (hnocomment (by decide)), if_pos rfl]
    · rw [List.singleton_append, Scan.run_cons, Scan.step_open rfl]
      rfl
  by_cases hclose : c = '}'
  · subst hclose
    have hturn : closingTurn (marksOf t) position h.lt (d + 1) = closeOne position (d + 1) := by
      rw [closingTurn, h.getElem (by decide) h.lt, if_neg hquote,
        if_neg (hnocomment (by decide)), if_neg hopen, if_pos rfl]
    cases d with
    | zero =>
        refine .closed [] rest rfl (walk_over h.lt hturn) ?_
        rw [Scan.run_cons, Scan.step_finish rfl, List.append_nil]
        rfl
    | succ d =>
        refine (hnext d).move ['}'] (hmoves (by decide) hturn) ?_
        rw [List.singleton_append, Scan.run_cons, Scan.step_close rfl]
        rfl
  by_cases hslash : c = '/'
  · subst hslash
    refine (hnext d).move ['/'] (hmoves (by decide) ?_) ?_
    · rw [closingTurn, h.getElem (by decide) h.lt, if_neg hquote,
        if_neg (hnocomment (by decide)), if_neg hopen, if_neg hclose]
    · rw [List.singleton_append, Scan.run_cons, Scan.step_body '/' fun _ => ⟨hopen, hclose⟩]
      exact Scan.result_run_slash (hcomment rfl)
  · have hwalk : closingFrom t position (d + 1)
        = closingFrom t (position + width [c]) (d + 1) := by
      refine h.walk_inert fun q hlt hq => ?_
      rcases hq with hq | hq
      · exact closingTurn_plain hlt (hq ▸ hquote) (hq ▸ hslash) (hq ▸ hopen) (hq ▸ hclose)
      · exact closingTurn_plain hlt (hq.ne (by decide)) (hq.ne (by decide)) (hq.ne (by decide))
          (hq.ne (by decide))
    refine (hnext d).move [c] hwalk ?_
    rw [List.singleton_append, Scan.run_cons, Scan.step_body c fun _ => ⟨hopen, hclose⟩,
      Zone.next_eq_code rfl hquote hslash]
    rfl

/-- From inside of a body, the search comes to what the scan comes to. -/
theorem closes (h : At t position before rest) : Closes t rest text position d opened found := by
  -- what is left to read gets shorter, at every depth and whatever has been collected
  induction hn : rest.length using Nat.strongRecOn generalizing rest text position before d with
  | ind n ih =>
      cases rest with
      | nil =>
          refine .never (walk_finish ?_) rfl
          rw [h.length]
          exact Nat.le_refl _
      | cons c rest =>
          have hshorter : ∀ part after : List Char, part ≠ [] → c :: rest = part ++ after →
              after.length < n := by
            intro part after hne heq
            have hpos := List.length_pos_iff.mpr hne
            rw [← hn, heq, List.length_append]
            omega
          by_cases hquote : c = '"'
          · subst hquote
            rcases h.literal_cases with ⟨inside, tail, hin, htail, rfl, hend⟩
              | ⟨inside, after, hin, heq, hend⟩
            · refine .never ?_ (Scan.result_run_unclosed hin htail)
              have hturn : closingTurn (marksOf t) position h.lt (d + 1)
                  = .ok (.on (marksOf t).length (d + 1)) := by
                rw [closingTurn, if_pos (h.getElem (by decide) h.lt), hend]
              rw [closingFrom, walk_on h.lt hturn h.lt (Nat.le_refl _), walk_finish (Nat.le_refl _)]
            · have hnext := hshorter _ after (List.cons_ne_nil _ _) heq
              have hturn : closingTurn (marksOf t) position h.lt (d + 1)
                  = .ok (.on (position + width ('"' :: (inside ++ ['"']))) (d + 1)) := by
                rw [closingTurn, if_pos (h.getElem (by decide) h.lt), hend]
              rw [heq] at h ⊢
              refine (ih _ hnext (h.move _) rfl).move _
                (h.walk_on _ (List.cons_ne_nil _ _) _ hturn) ?_
              rw [Scan.run_append, Scan.run_literal hin rfl]
          by_cases hcomment : c = '/' ∧ rest.head? = some '/'
          · obtain ⟨rfl, hhead⟩ := hcomment
            obtain ⟨rest, rfl⟩ := List.head?_eq_some_iff.mp hhead
            obtain ⟨remark, after, heq, hremark, hafter, hend⟩ := h.comment_cases
            have hnext := hshorter _ after (List.cons_ne_nil _ _) heq
            have hturn : closingTurn (marksOf t) position h.lt (d + 1)
                = .ok (.on (position + width ('/' :: '/' :: remark)) (d + 1)) := by
              rw [closingTurn, h.getElem (by decide) h.lt, if_neg (by decide),
                if_pos ((h.startsComment (by decide) h.lt).mpr ⟨rfl, rfl⟩), hend]
            rw [heq] at h ⊢
            exact (ih _ hnext (h.move _) rfl).move _
              (h.walk_on _ (List.cons_ne_nil _ _) _ hturn) (Scan.result_run_remark hremark hafter)
          · refine closes_single h hquote (fun hc hhead => hcomment ⟨hc, hhead⟩) fun d' => ?_
            exact ih _ (hshorter [c] rest (List.cons_ne_nil _ _) rfl) (h.move [c]) rfl

/-! ## Headers -/

/-- The look for a header after a keyword takes blanks, letters and blanks as far as they
    go; there is a header if there are letters and a brace follows. -/
theorem headerAt_keyword {kind : BlockKind}
    (h : At t position before (kind.keyword.toList ++ (gap ++ (name ++ (gap' ++ rest)))))
    (hgap : IsGap gap) (hname : ∀ c ∈ name, isNameChar c = true) (hgap' : IsGap gap')
    (hstart : ∀ c, (name ++ (gap' ++ rest)).head? = some c → isBlank c = false)
    (hstop : ∀ c, (gap' ++ rest).head? = some c → isNameChar c = false)
    (hend : ∀ c, rest.head? = some c → isBlank c = false) :
    headerAt (String.ofList t) (marksOf t) position (position + width kind.keyword.toList)
      = if name = [] then .ok none
        else if rest.head? = some '{' then
          .ok (some (⟨kind, String.ofList name, position⟩,
            position + width (kind.keyword.toList ++ (gap ++ (name ++ gap')))))
        else .ok none := by
  have hword := h.move kind.keyword.toList
  have hgapped := hword.move gap
  have hnamed := hgapped.move name
  have hnameStart : skipWhile isBlank (marksOf t) (position + width kind.keyword.toList)
      = position + width kind.keyword.toList + width gap :=
    hword.skipWhile (fun _ => IsHigh.isBlank) hgap hstart
  have hnameEnd : skipWhile isNameChar (marksOf t)
        (position + width kind.keyword.toList + width gap)
      = position + width kind.keyword.toList + width gap + width name :=
    hgapped.skipWhile (fun _ => IsHigh.isNameChar) hname hstop
  have hopening : skipWhile isBlank (marksOf t)
        (position + width kind.keyword.toList + width gap + width name)
      = position + width kind.keyword.toList + width gap + width name + width gap' :=
    hnamed.skipWhile (fun _ => IsHigh.isBlank) hgap' hend
  have hbrace : (marksOf t)[position + width kind.keyword.toList + width gap + width name
      + width gap']? = some '{' ↔ rest.head? = some '{' := by
    rw [(hnamed.move gap').head?, head?_marksOf (by decide)]
  have hempty : position + width kind.keyword.toList + width gap + width name
      = position + width kind.keyword.toList + width gap ↔ name = [] :=
    ⟨fun heq => eq_nil_of_width_eq_zero (by omega), fun heq => by rw [heq]; rfl⟩
  have hwidth : position + width (kind.keyword.toList ++ (gap ++ (name ++ gap')))
      = position + width kind.keyword.toList + width gap + width name + width gap' := by
    simp only [width_append, Nat.add_assoc]
  rw [headerAt, h.slice kind.keyword.toList, hwidth]
  simp only [String.ofList_toList, ofKeyword?_keyword, hnameStart, hnameEnd, hopening, hempty,
    hbrace, hgapped.slice name, Except.map]

/-- The look for a header after a word finds none, and the scan comes to the same from
    the end of the word; or it finds the header and the brace that the scan does. -/
theorem headerAt_cases (h : At t position before (word ++ rest)) (hword : IsName word)
    (hrest : ∀ c, rest.head? = some c → isNameChar c = false) :
    (headerAt (String.ofList t) (marksOf t) position (position + width word) = .ok none
      ∧ ∀ found, (Scan.run ⟨position, .code, .between, found⟩ (word ++ rest)).result
        = (Scan.run ⟨position + width word, .code, .between, found⟩ rest).result)
    ∨ ∃ (header : Header) (head after : List Char), word ++ rest = head ++ '{' :: after
      ∧ headerAt (String.ofList t) (marksOf t) position (position + width word)
        = .ok (some (header, position + width head))
      ∧ ∀ found, Scan.run ⟨position, .code, .between, found⟩ (head ++ ['{'])
        = ⟨position + width (head ++ ['{']), .code, .body header 0 [], found⟩ := by
  cases hkeyword : BlockKind.ofKeyword? (String.ofList word) with
  | none =>
      refine Or.inl ⟨?_, fun found => Scan.result_run_ordinary hword hkeyword hrest⟩
      rw [headerAt, h.slice word]
      simp only [hkeyword]
  | some kind =>
      obtain rfl : word = kind.keyword.toList := by
        rw [← eq_keyword_of_ofKeyword? hkeyword, String.toList_ofList]
      obtain ⟨gap, rest, rfl, hgap, hstart⟩ := exists_run isBlank rest
      obtain ⟨name, rest, rfl, hletters, hstop⟩ := exists_run isNameChar rest
      obtain ⟨gap', rest, rfl, hgap', hend⟩ := exists_run isBlank rest
      rw [headerAt_keyword h hgap hletters hgap' hstart hstop hend]
      by_cases hnone : name = []
      · subst hnone
        exact Or.inl ⟨if_pos rfl, fun found => Scan.result_run_nameless hgap fun c hc =>
          ⟨hstop c hc, hstart c hc⟩⟩
      have hname : IsName name := ⟨hnone, hletters⟩
      -- a keyword does not end where a name begins
      have hne : gap ≠ [] := by
        rintro rfl
        obtain ⟨c, name, rfl⟩ := List.exists_cons_of_ne_nil hnone
        exact absurd ((hrest c rfl).symm.trans (hletters c (List.mem_cons_self ..)))
          Bool.false_ne_true
      rw [if_neg hnone]
      by_cases hopen : rest.head? = some '{'
      · obtain ⟨after, rfl⟩ := List.head?_eq_some_iff.mp hopen
        refine Or.inr ⟨⟨kind, String.ofList name, position⟩,
          kind.keyword.toList ++ (gap ++ (name ++ gap')), after, ?_, if_pos hopen, fun found => ?_⟩
        · simp only [List.append_assoc]
        · have hhead : kind.keyword.toList ++ (gap ++ (name ++ gap')) ++ ['{']
              = kind.keyword.toList ++ gap ++ (name ++ (gap' ++ ['{'])) := by
            simp only [List.append_assoc]
          rw [hhead, Scan.run_append, Scan.run_keyword hne hgap, Scan.run_label hname hgap',
            width_append _ (name ++ (gap' ++ ['{'])), Nat.add_assoc]
      · refine Or.inl ⟨if_neg hopen, fun found => ?_⟩
        refine Scan.result_run_braceless hne hgap hname hgap' hstop fun c hc => ⟨hend c hc, ?_⟩
        rintro rfl
        exact hopen hc

/-! ## Blocks -/

/-- The search for blocks from a position on. -/
def blocksFrom (t : List Char) (position : Nat) (found : List Block) :
    Checked (Except Header (List Block)) :=
  walk (marksOf t).length (blockTurn (String.ofList t) (marksOf t))
    (fun found => .ok (.ok found.reverse)) position found

/-- Whether the search for blocks comes to what the scan does. -/
def Finds (t rest : List Char) (position : Nat) (found : List Block) : Prop :=
  blocksFrom t position found
    = .ok (Scan.run ⟨position, .code, .between, found⟩ rest).result

/-- What both come to after a part that both have passed over, they come to before it. -/
theorem Finds.move (part : List Char) (h : Finds t rest (position + width part) found)
    (hwalk : blocksFrom t position found = blocksFrom t (position + width part) found)
    (hrun : (Scan.run ⟨position, .code, .between, found⟩ (part ++ rest)).result
      = (Scan.run ⟨position + width part, .code, .between, found⟩ rest).result) :
    Finds t (part ++ rest) position found := by
  rw [Finds, hwalk, hrun]
  exact h

/-- The brace of a header is the first one that is open. -/
theorem closingBrace_eq (h : At t position before ('{' :: rest)) :
    closingBrace (marksOf t) position = closingFrom t (position + width ['{']) (0 + 1) := by
  refine h.walk_on ['{'] (List.cons_ne_nil _ _) h.lt ?_
  have hcomment : ¬ startsComment (marksOf t) position h.lt = true := by
    intro hstarts
    exact absurd ((h.startsComment (by decide) h.lt).mp hstarts).1 (by decide)
  rw [closingTurn, h.getElem (by decide) h.lt, if_neg (by decide), if_neg hcomment, if_pos rfl]
  rfl

/-- At a word, a header is looked for, and then its closing brace. -/
theorem blockTurn_word (h : At t position before (c :: (word ++ rest)))
    (hletters : ∀ d ∈ c :: word, isNameChar d = true)
    (hrest : ∀ d, rest.head? = some d → isNameChar d = false) :
    blockTurn (String.ofList t) (marksOf t) position h.lt found
      = match headerAt (String.ofList t) (marksOf t) position (position + width (c :: word)) with
        | .error fault => .error fault
        | .ok none => .ok (.on (position + width (c :: word)) found)
        | .ok (some (header, opening)) =>
            match closingBrace (marksOf t) opening with
            | .error fault => .error fault
            | .ok none => .ok (.over (.error header))
            | .ok (some closing) =>
                (slice (String.ofList t) (opening + 1) closing).map fun body =>
                  .on (closing + 1) (⟨header, body⟩ :: found) := by
  have hc : isNameChar c = true := hletters c (List.mem_cons_self ..)
  have hlow : ¬ IsHigh c := fun hhigh =>
    absurd (hhigh.isNameChar.symm.trans hc) Bool.false_ne_true
  have hcomment : ¬ startsComment (marksOf t) position h.lt = true := by
    intro hstarts
    exact (isNameChar_ne hc).2.1 ((h.startsComment hlow h.lt).mp hstarts).1
  have hend : skipWhile isNameChar (marksOf t) position = position + width (c :: word) :=
    h.skipWhile (fun _ => IsHigh.isNameChar) hletters hrest
  rewrite [blockTurn, h.getElem hlow h.lt, if_neg (isNameChar_ne hc).1, if_neg hcomment,
    if_pos hc, ← hend]
  rfl

/-- A word opens a block, or is passed over. -/
theorem finds_word (h : At t position before rest)
    (hletter : ∃ c, rest.head? = some c ∧ isNameChar c = true)
    (hnext : ∀ part after, part ≠ [] → rest = part ++ after → ∀ found,
      Finds t after (position + width part) found) : Finds t rest position found := by
  obtain ⟨word, rest, rfl, hletters, hrest⟩ := exists_run isNameChar rest
  have hne : word ≠ [] := by
    rintro rfl
    obtain ⟨c, hc, hname⟩ := hletter
    exact absurd ((hrest c hc).symm.trans hname) Bool.false_ne_true
  obtain ⟨c, word, rfl⟩ := List.exists_cons_of_ne_nil hne
  have hturn : blockTurn (String.ofList t) (marksOf t) position h.lt found = _ :=
    blockTurn_word h hletters hrest
  rcases headerAt_cases h ⟨hne, hletters⟩ hrest with
    ⟨hnone, hrun⟩ | ⟨header, head, after, heq, hsome, hrun⟩
  · rw [hnone] at hturn
    exact (hnext _ rest hne rfl found).move _ (h.walk_on _ hne h.lt hturn) (hrun found)
  · have hhead : At t position before (head ++ '{' :: after) := ⟨heq ▸ h.text, h.position⟩
    have hopening := hhead.move head
    have hinside := hopening.move ['{']
    have hbody : (Scan.run ⟨position, .code, .between, found⟩ (head ++ '{' :: after)).result
        = (Scan.run ⟨position + width head + width ['{'], .code, .body header 0 [], found⟩
            after).result := by
      rw [← List.singleton_append, ← List.append_assoc, Scan.run_append, hrun, width_append,
        Nat.add_assoc]
    rw [hsome] at hturn
    simp only [closingBrace_eq hopening] at hturn
    have hcloses : Closes t after [] (position + width head + width ['{']) 0 header found :=
      closes hinside
    cases hcloses with
    | never hnever herror =>
        rw [hnever] at hturn
        rw [Finds, heq, hbody, herror]
        exact walk_over h.lt hturn
    | closed inner after hafter hclosed hresult =>
        subst hafter
        rw [hclosed] at hturn
        have hcut : slice (String.ofList t) (position + width head + 1)
            (position + width head + width ['{'] + width inner) = .ok (String.ofList inner) :=
          hinside.slice inner
        have hpart : head ++ '{' :: (inner ++ '}' :: after)
            = head ++ '{' :: (inner ++ ['}']) ++ after := by
          simp only [List.append_assoc, List.cons_append, List.nil_append]
        have hwidth : position + width head + width ['{'] + width inner + 1
            = position + width (head ++ '{' :: (inner ++ ['}'])) := by
          simp only [width_append, width_cons, width_nil, utf8Size_marks]
          omega
        have hne' : head ++ '{' :: (inner ++ ['}']) ≠ [] :=
          List.append_ne_nil_of_right_ne_nil _ (List.cons_ne_nil _ _)
        simp only [hcut, Except.map, hwidth] at hturn
        rw [Finds, heq, hbody, hresult, hwidth]
        rw [hpart] at heq hhead
        exact (hhead.walk_on _ hne' h.lt hturn).trans (hnext _ after hne' heq _)

/-- A slash alone, or a character that does nothing. -/
theorem finds_single (h : At t position before (c :: rest)) (hname : ¬ isNameChar c = true)
    (hquote : c ≠ '"') (hcomment : c = '/' → rest.head? ≠ some '/')
    (hnext : Finds t rest (position + width [c]) found) : Finds t (c :: rest) position found := by
  have hstep : Scan.step ⟨position, .code, .between, found⟩ c
      = ⟨position + width [c], Zone.code.next c, .between, found⟩ := by
    rw [Scan.step_outside rfl rfl, Place.next, if_neg hname]
    rfl
  by_cases hslash : c = '/'
  · subst hslash
    have hnone : ¬ startsComment (marksOf t) position h.lt = true := by
      intro hstarts
      exact hcomment rfl ((h.startsComment (by decide) h.lt).mp hstarts).2
    have hturn : blockTurn (String.ofList t) (marksOf t) position h.lt found
        = .ok (.on (position + width ['/']) found) := by
      rw [blockTurn, h.getElem (by decide) h.lt, if_neg hquote, if_neg hnone, if_neg hname]
      rfl
    refine hnext.move ['/'] (h.walk_on ['/'] (List.cons_ne_nil _ _) _ hturn) ?_
    rw [List.singleton_append, Scan.run_cons, hstep]
    exact Scan.result_run_slash (hcomment rfl)
  · have hplain : ∀ (q : Nat) (hlt : q < (marksOf t).length), (marksOf t)[q] ≠ '"' →
        (marksOf t)[q] ≠ '/' → ¬ isNameChar (marksOf t)[q] = true →
        blockTurn (String.ofList t) (marksOf t) q hlt found = .ok (.on (q + 1) found) := by
      intro q hlt hq hs hn
      have hnone : ¬ startsComment (marksOf t) q hlt = true := by
        rw [startsComment, decide_eq_false hs, Bool.false_and]
        exact Bool.false_ne_true
      rw [blockTurn, if_neg hq, if_neg hnone, if_neg hn]
    refine hnext.move [c] (h.walk_inert fun q hlt hq => ?_) ?_
    · rcases hq with hq | hq
      · exact hplain q hlt (hq ▸ hquote) (hq ▸ hslash) (hq ▸ hname)
      · refine hplain q hlt (hq.ne (by decide)) (hq.ne (by decide)) ?_
        rw [hq.isNameChar]
        exact Bool.false_ne_true
    · rw [List.singleton_append, Scan.run_cons, hstep, Zone.next_eq_code rfl hquote hslash]

/-- From between the blocks, the search comes to what the scan comes to. -/
theorem finds (h : At t position before rest) : Finds t rest position found := by
  -- what is left to read gets shorter, whatever has been found
  induction hn : rest.length using Nat.strongRecOn generalizing rest position before found with
  | ind n ih =>
      have hnext : ∀ part after, part ≠ [] → rest = part ++ after → ∀ found,
          Finds t after (position + width part) found := by
        intro part after hne heq found
        subst heq
        have hpos := List.length_pos_iff.mpr hne
        refine ih _ ?_ (h.move part) rfl
        rw [← hn, List.length_append]
        omega
      cases rest with
      | nil =>
          refine walk_finish ?_
          rw [h.length]
          exact Nat.le_refl _
      | cons c rest =>
          by_cases hname : isNameChar c = true
          · exact finds_word h ⟨c, rfl, hname⟩ hnext
          by_cases hquote : c = '"'
          · subst hquote
            rcases h.literal_cases with ⟨inside, tail, hin, htail, rfl, hend⟩
              | ⟨inside, after, hin, heq, hend⟩
            · have hturn : blockTurn (String.ofList t) (marksOf t) position h.lt found
                  = .ok (.on (marksOf t).length found) := by
                rw [blockTurn, if_pos (h.getElem (by decide) h.lt), hend]
              rw [Finds, Scan.result_run_unclosed_between hin htail, blocksFrom,
                walk_on h.lt hturn h.lt (Nat.le_refl _), walk_finish (Nat.le_refl _)]
            · have hturn : blockTurn (String.ofList t) (marksOf t) position h.lt found
                  = .ok (.on (position + width ('"' :: (inside ++ ['"']))) found) := by
                rw [blockTurn, if_pos (h.getElem (by decide) h.lt), hend]
              have hlater := hnext _ after (List.cons_ne_nil _ _) heq found
              rw [heq] at h ⊢
              refine hlater.move _ (h.walk_on _ (List.cons_ne_nil _ _) _ hturn) ?_
              rw [Scan.run_append, Scan.run_literal_between hin]
          by_cases hcomment : c = '/' ∧ rest.head? = some '/'
          · obtain ⟨rfl, hhead⟩ := hcomment
            obtain ⟨rest, rfl⟩ := List.head?_eq_some_iff.mp hhead
            obtain ⟨remark, after, heq, hremark, hafter, hend⟩ := h.comment_cases
            have hturn : blockTurn (String.ofList t) (marksOf t) position h.lt found
                = .ok (.on (position + width ('/' :: '/' :: remark)) found) := by
              rw [blockTurn, h.getElem (by decide) h.lt, if_neg (by decide),
                if_pos ((h.startsComment (by decide) h.lt).mpr ⟨rfl, rfl⟩), hend]
            have hlater := hnext _ after (List.cons_ne_nil _ _) heq found
            rw [heq] at h ⊢
            exact hlater.move _ (h.walk_on _ (List.cons_ne_nil _ _) _ hturn)
              (Scan.result_run_remark_between hremark hafter)
          · exact finds_single h hname hquote (fun hc hhead => hcomment ⟨hc, hhead⟩)
              (hnext [c] rest (List.cons_ne_nil _ _) rfl found)

/-- The search for blocks by positions finds those that the scan finds. -/
theorem blocks_eq (text : String) : Positions.blocks text = .ok (Schema.blocks text) := by
  have h : blocksFrom text.toList 0 []
      = .ok (Scan.run ⟨0, .code, .between, []⟩ text.toList).result := finds (At.start text.toList)
  rw [blocksFrom, String.ofList_toList, ← marks_ofList, String.ofList_toList] at h
  exact h

end Positions

end Stencil.Schema
