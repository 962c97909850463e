import Stencil.Proofs.Schema.BlockPositions
import Stencil.Proofs.Schema.TokenPassage

/-! # Tokens by positions

    A search by positions knows of the open token only where it starts; the scan by
    characters holds what has been read of it.  The one is the other as long as that start
    and the position stand between characters and nothing is left out between them
    (`Cuts`).  So the search finds the tokens that the scan does (`tokens_eq`).

    The payoff is `scans_without_fault`: on no text does anything go wrong in a search by
    positions. -/

namespace Stencil.Schema

open Stencil.Text (isBlank)

variable {c : Char} {rest pending : List Char} {finished : List String} {depth : Nat}

/-! ## What a scan comes to -/

namespace TokenScan

/-- A slash that no other slash follows belongs to the token. -/
theorem result_run_slash (h : rest.head? ≠ some '/') :
    (run ⟨finished, pending, 0, .slash⟩ rest).result
      = (run ⟨finished, '/' :: pending, 0, .code⟩ rest).result := by
  cases rest with
  | nil => rfl
  | cons c rest =>
      rw [run_cons, run_cons, step_waiting fun hc => h (congrArg some hc)]

/-- After a comment the line ends, and the scan goes on without an open token. -/
theorem result_run_remark {remark : List Char} (hremark : '\n' ∉ remark)
    (hrest : ∀ c, rest.head? = some c → c = '\n') :
    (run ⟨finished, pending, 0, .code⟩ ('/' :: '/' :: remark ++ rest)).result
      = (run ⟨ended finished pending, [], 0, .code⟩ rest).result := by
  rw [run_append, run_comment hremark]
  cases rest with
  | nil => rfl
  | cons c rest =>
      obtain rfl := hrest c rfl
      rw [run_cons, run_cons, step_blank (by decide)]
      rfl

/-- A literal that is not closed belongs to the token up to the end of the text. -/
theorem result_run_unclosed {inside : List Char} (h : Quotable inside)
    (hrest : rest = [] ∨ rest = ['\\']) :
    (run ⟨finished, pending, depth, .code⟩ ('"' :: (inside ++ rest))).result
      = (ended finished (('"' :: (inside ++ rest)).reverse ++ pending)).reverse := by
  have hopen : step ⟨finished, pending, depth, .code⟩ '"'
      = ⟨finished, '"' :: pending, depth, .literal⟩ := by
    rw [step_code fun h => absurd h (by decide)]
    rfl
  have hpending : ∀ cs : List Char, ('"' :: (inside ++ cs)).reverse ++ pending
      = cs.reverse ++ (inside.reverse ++ '"' :: pending) := by
    intro cs
    simp
  rw [run_cons, hopen, run_append, run_quotable h, hpending]
  rcases hrest with rfl | rfl
  · show (TokenScan.close ⟨_, _, _, _⟩).finished.reverse = _
    rw [close_eq]
    rfl
  · show (TokenScan.close ⟨_, '\\' :: _, _, .escape⟩).finished.reverse = _
    rw [close_eq]
    rfl

end TokenScan

namespace Positions

open TokenScan (ended isOpening isClosing)

variable {t before front part after : List Char} {position : Nat} {s : Cutting}

/-! ## Open tokens -/

/-- Where the open token starts, if one is open, after a text. -/
def startOf (front pending : List Char) : Option Nat :=
  if pending.isEmpty then none else some (width front)

theorem startOf_of_ne_nil {pending : List Char} (h : pending ≠ []) (front : List Char) :
    startOf front pending = some (width front) := by
  obtain ⟨c, pending, rfl⟩ := List.exists_cons_of_ne_nil h
  rfl

/-- A token that is open or opens at a position. -/
theorem begin_eq (h : At t position (front ++ pending.reverse) rest) :
    Cutting.begin ⟨finished, startOf front pending, depth⟩ position
      = ⟨finished, some (width front), depth⟩ := by
  cases pending with
  | nil =>
      have hposition : position = width front := by
        rw [h.position, List.reverse_nil, List.append_nil]
      rw [Cutting.begin, hposition]
      rfl
  | cons c pending => rfl

/-- The open token is cut out whole. -/
theorem finish_eq (h : At t position (front ++ pending.reverse) rest) :
    Cutting.finish (String.ofList t) position ⟨finished, startOf front pending, depth⟩
      = .ok ⟨ended finished pending, none, depth⟩ := by
  cases pending with
  | nil => rfl
  | cons c pending =>
      have hfront : At t (width front) front ((c :: pending).reverse ++ rest) :=
        ⟨by rw [h.text, List.append_assoc], rfl⟩
      have hslice : slice (String.ofList t) (width front) position
          = .ok (String.ofList (c :: pending).reverse) := by
        rw [h.position, width_append]
        exact hfront.slice (c :: pending).reverse
      show (slice (String.ofList t) (width front) position).map _ = _
      rw [hslice]
      rfl

/-- The byte before a position is an at sign where the character is one. -/
theorem markBefore_eq (h : At t position (before ++ [c]) rest) :
    (markBefore (marksOf t) position).map (· != '@') = .ok (c != '@') := by
  have hbefore : At t (width before) before (c :: rest) :=
    ⟨by rw [h.text, List.append_assoc, List.singleton_append], rfl⟩
  have hpos := c.utf8Size_pos
  have hposition : position = width before + (c.utf8Size - 1) + 1 := by
    rw [h.position, width_append, width_cons, width_nil]
    omega
  have hlt : width before + (c.utf8Size - 1) < (marksOf t).length := by
    rw [h.length]
    omega
  rw [hposition, markBefore, List.getElem?_eq_getElem hlt]
  show Except.ok ((marksOf t)[_] != '@') = _
  by_cases hc : IsHigh c
  · have hbyte := hbefore.isHigh_getElem hc (i := c.utf8Size - 1) (by omega) hlt
    rw [bne_iff_ne.mpr (hbyte.ne (by decide)), bne_iff_ne.mpr (hc.ne (by decide))]
  · have hone := utf8Size_of_not_isHigh hc
    simp only [hone, Nat.sub_self, Nat.add_zero] at hlt ⊢
    rw [hbefore.getElem hc hlt]

/-! ## Turns -/

/-- The search for tokens from a position on. -/
def tokensFrom (t : List Char) (position : Nat) (s : Cutting) : Checked (List String) :=
  walk (marksOf t).length (tokenTurn (String.ofList t) (marksOf t))
    (fun s => (s.finish (String.ofList t) (marksOf t).length).map fun s => s.found.reverse)
    position s

/-- Whether the search for tokens comes to what the scan does, with an open token that
    starts after a text. -/
def Cuts (t rest front pending : List Char) (position depth : Nat) (finished : List String) :
    Prop :=
  tokensFrom t position ⟨finished, startOf front pending, depth⟩
    = .ok (TokenScan.run ⟨finished, pending, depth, .code⟩ rest).result

/-- What both come to after a part that both have read, they come to before it. -/
theorem Cuts.move {front' pending' : List Char} {depth' : Nat} {finished' : List String}
    (part : List Char) (h : Cuts t rest front' pending' (position + width part) depth' finished')
    (hwalk : tokensFrom t position ⟨finished, startOf front pending, depth⟩
      = tokensFrom t (position + width part) ⟨finished', startOf front' pending', depth'⟩)
    (hrun : (TokenScan.run ⟨finished, pending, depth, .code⟩ (part ++ rest)).result
      = (TokenScan.run ⟨finished', pending', depth', .code⟩ rest).result) :
    Cuts t (part ++ rest) front pending position depth finished := by
  rw [Cuts, hwalk, hrun]
  exact h

/-- No token ends before a byte that is no at sign. -/
theorem splits_of_ne {m : List Char} (hlt : position < m.length) (h : m[position] ≠ '@') :
    splits m position hlt s = .ok false := by
  rw [splits]
  cases s.start with
  | none => rfl
  | some start => exact if_neg fun hat => h hat.1

/-- No token ends in brackets. -/
theorem splits_of_depth {m : List Char} (hlt : position < m.length) (h : s.depth ≠ 0) :
    splits m position hlt s = .ok false := by
  rw [splits]
  cases s.start with
  | none => rfl
  | some start => exact if_neg fun hat => h hat.2.1

/-- A turn at a byte that neither opens a literal nor starts a comment. -/
theorem tokenTurn_eq {body : String} {m : List Char} (hlt : position < m.length)
    (hquote : m[position] ≠ '"')
    (hcomment : ¬ (s.depth = 0 ∧ startsComment m position hlt = true))
    (hsplits : splits m position hlt s = .ok false) :
    tokenTurn body m position hlt s
      = if isOpening m[position] then
          .ok (.on (position + 1) { s.begin position with depth := s.depth + 1 })
        else if isClosing m[position] then
          .ok (.on (position + 1) { s.begin position with depth := s.depth - 1 })
        else if isBlank m[position] then
          if s.depth = 0 then (s.finish body position).map (.on (position + 1))
          else .ok (.on (position + 1) s)
        else .ok (.on (position + 1) (s.begin position)) := by
  rw [tokenTurn, if_neg hquote, if_neg hcomment, hsplits]

/-- A turn at a byte that has no role. -/
theorem tokenTurn_plain {body : String} {m : List Char} (hlt : position < m.length)
    (hquote : m[position] ≠ '"')
    (hcomment : ¬ (s.depth = 0 ∧ startsComment m position hlt = true))
    (hsplits : splits m position hlt s = .ok false) (hopen : isOpening m[position] = false)
    (hclose : isClosing m[position] = false) (hblank : isBlank m[position] = false) :
    tokenTurn body m position hlt s = .ok (.on (position + 1) (s.begin position)) := by
  rw [tokenTurn_eq hlt hquote hcomment hsplits, hopen, hclose, hblank]
  rfl

/-- A character that has no role opens a token or goes on with it, byte by byte. -/
theorem tokensFrom_plain (h : At t position before (c :: rest)) (hquote : c ≠ '"')
    (hslash : c ≠ '/') (hat : c ≠ '@') (hopen : isOpening c = false) (hclose : isClosing c = false)
    (hblank : isBlank c = false) :
    tokensFrom t position s = tokensFrom t (position + width [c]) (s.begin position) := by
  have hturn : ∀ (s : Cutting) (q : Nat) (hlt : q < (marksOf t).length),
      (marksOf t)[q] = c ∨ IsHigh (marksOf t)[q] →
      tokenTurn (String.ofList t) (marksOf t) q hlt s = .ok (.on (q + 1) (s.begin q)) := by
    intro s q hlt hq
    have hnone : (marksOf t)[q] ≠ '/' →
        ¬ (s.depth = 0 ∧ startsComment (marksOf t) q hlt = true) := by
      rintro hne ⟨-, hstarts⟩
      rw [startsComment, decide_eq_false hne, Bool.false_and] at hstarts
      cases hstarts
    rcases hq with hq | hq
    · exact tokenTurn_plain hlt (hq ▸ hquote) (hnone (hq ▸ hslash)) (splits_of_ne hlt (hq ▸ hat))
        (hq ▸ hopen) (hq ▸ hclose) (hq ▸ hblank)
    · exact tokenTurn_plain hlt (hq.ne (by decide)) (hnone (hq.ne (by decide)))
        (splits_of_ne hlt (hq.ne (by decide))) hq.isOpening hq.isClosing hq.isBlank
  have hlt := h.lt
  have hfirst : (marksOf t)[position] = c ∨ IsHigh (marksOf t)[position] := by
    by_cases hc : IsHigh c
    · exact Or.inr (h.isHigh_getElem hc (i := 0) c.utf8Size_pos hlt)
    · exact Or.inl (h.getElem hc hlt)
  have hbegun : ∀ q : Nat, (s.begin position).begin q = s.begin position := fun _ => rfl
  -- the token is open after the first byte, and the others leave it open
  have hopened : tokensFrom t position s = tokensFrom t position (s.begin position) := by
    have hone := hturn (s.begin position) position hlt hfirst
    rw [hbegun] at hone
    exact (walk_on hlt (hturn s position hlt hfirst) (Nat.lt_succ_self _) hlt).trans
      (walk_on hlt hone (Nat.lt_succ_self _) hlt).symm
  rw [hopened]
  refine h.walk_inert fun q hlt hq => ?_
  rw [hturn _ q hlt hq, hbegun]

/-! ## Tokens -/

/-- A character of one byte that the token takes in. -/
theorem cuts_push {depth' : Nat} (h : At t position (front ++ pending.reverse) (c :: rest))
    (hc : ¬ IsHigh c)
    (hturn : tokenTurn (String.ofList t) (marksOf t) position h.lt
        ⟨finished, startOf front pending, depth⟩
      = .ok (.on (position + 1) ⟨finished, some (width front), depth'⟩))
    (hrun : (TokenScan.run ⟨finished, pending, depth, .code⟩ (c :: rest)).result
      = (TokenScan.run ⟨finished, c :: pending, depth', .code⟩ rest).result)
    (hnext : Cuts t rest front (c :: pending) (position + width [c]) depth' finished) :
    Cuts t (c :: rest) front pending position depth finished := by
  refine hnext.move [c] ?_ hrun
  refine h.walk_on [c] (List.cons_ne_nil _ _) h.lt ?_
  rw [hturn, width_cons, width_nil, utf8Size_of_not_isHigh hc]
  rfl

/-- An at sign. -/
theorem cuts_at (h : At t position (front ++ pending.reverse) ('@' :: rest))
    (hpush : Cuts t rest front ('@' :: pending) (position + width ['@']) depth finished)
    (hsplit : depth = 0 → Cuts t rest (front ++ pending.reverse) ['@'] (position + width ['@']) 0
      (ended finished pending)) :
    Cuts t ('@' :: rest) front pending position depth finished := by
  have hlt := h.lt
  have hget : (marksOf t)[position] = '@' := h.getElem (by decide) hlt
  have hnone : ∀ s : Cutting,
      ¬ (s.depth = 0 ∧ startsComment (marksOf t) position h.lt = true) := by
    rintro s ⟨-, hstarts⟩
    exact absurd ((h.startsComment (by decide) h.lt).mp hstarts).1 (by decide)
  have hgoes :
      splits (marksOf t) position h.lt ⟨finished, startOf front pending, depth⟩ = .ok false →
      tokenTurn (String.ofList t) (marksOf t) position h.lt ⟨finished, startOf front pending, depth⟩
        = .ok (.on (position + 1) ⟨finished, some (width front), depth⟩) := by
    intro hsplits
    rw [tokenTurn_plain h.lt (by rw [hget]; decide) (hnone _) hsplits (by rw [hget]; rfl)
      (by rw [hget]; rfl) (by rw [hget]; rfl), begin_eq h]
  by_cases hdepth : depth = 0
  · subst hdepth
    cases pending with
    | nil =>
        refine cuts_push h (by decide) (hgoes rfl) ?_ hpush
        rw [TokenScan.run_cons, TokenScan.step_at fun hat => by cases hat]
        rfl
    | cons p pending =>
        have hbefore : At t position ((front ++ pending.reverse) ++ [p]) ('@' :: rest) := by
          rw [List.append_assoc, ← List.reverse_cons]
          exact h
        have hstart : width front < position := by
          have hpos := p.utf8Size_pos
          rw [hbefore.position]
          simp only [width_append, width_cons]
          omega
        have hsplits : splits (marksOf t) position h.lt ⟨finished, startOf front (p :: pending), 0⟩
            = .ok (p != '@') := by
          rw [splits]
          show (if _ then _ else _) = _
          rw [if_pos ⟨hget, rfl, hstart⟩, markBefore_eq hbefore]
        by_cases hp : p = '@'
        · subst hp
          refine cuts_push h (by decide) (hgoes hsplits) ?_ hpush
          rw [TokenScan.run_cons, TokenScan.step_at_at rfl]
        · have hstep : TokenScan.step ⟨finished, p :: pending, 0, .code⟩ '@'
              = ⟨ended finished (p :: pending), ['@'], 0, .code⟩ :=
            TokenScan.step_at fun hat => hp (Option.some.inj hat)
          refine (hsplit rfl).move ['@'] ?_ ?_
          · refine h.walk_on ['@'] (List.cons_ne_nil _ _) h.lt ?_
            rw [tokenTurn, if_neg (by rw [hget]; decide), if_neg (hnone _), hsplits,
              bne_iff_ne.mpr hp]
            show (Cutting.finish _ _ _).map _ = _
            rw [finish_eq h, h.position]
            rfl
          · rw [List.singleton_append, TokenScan.run_cons, hstep]
  · refine cuts_push h (by decide) (hgoes (splits_of_depth h.lt hdepth)) ?_ hpush
    have hin : 0 < depth := Nat.pos_of_ne_zero hdepth
    rw [TokenScan.run_cons, TokenScan.step_code fun _ => hin,
      TokenScan.code_push (by decide) (fun _ => hin) rfl rfl fun _ => hin]

/-- A turn at a character of one byte, outside of literals and comments. -/
theorem tokenTurn_single (h : At t position (front ++ pending.reverse) (c :: rest))
    (hc : ¬ IsHigh c) (hquote : c ≠ '"') (hat : c ≠ '@')
    (hcomment : ¬ (depth = 0 ∧ c = '/' ∧ rest.head? = some '/')) :
    tokenTurn (String.ofList t) (marksOf t) position h.lt
        ⟨finished, startOf front pending, depth⟩
      = if isOpening c then .ok (.on (position + 1) ⟨finished, some (width front), depth + 1⟩)
        else if isClosing c then .ok (.on (position + 1) ⟨finished, some (width front), depth - 1⟩)
        else if isBlank c then
          if depth = 0 then .ok (.on (position + 1) ⟨ended finished pending, none, depth⟩)
          else .ok (.on (position + 1) ⟨finished, startOf front pending, depth⟩)
        else .ok (.on (position + 1) ⟨finished, some (width front), depth⟩) := by
  have hlt := h.lt
  have hget : (marksOf t)[position] = c := h.getElem hc hlt
  rw [tokenTurn_eq h.lt (by rw [hget]; exact hquote) (fun hstarts =>
      hcomment ⟨hstarts.1, (h.startsComment hc h.lt).mp hstarts.2⟩)
    (splits_of_ne h.lt (by rw [hget]; exact hat)), hget, begin_eq h, finish_eq h]
  rfl

/-- A blank ends the token, but in brackets it is a part of it. -/
theorem cuts_blank (h : At t position (front ++ pending.reverse) (c :: rest))
    (hopened : depth ≠ 0 → pending ≠ []) (hblank : isBlank c = true)
    (hopen : isOpening c = false) (hclosing : isClosing c = false)
    (hturn : tokenTurn (String.ofList t) (marksOf t) position h.lt
        ⟨finished, startOf front pending, depth⟩
      = if depth = 0 then .ok (.on (position + 1) ⟨ended finished pending, none, depth⟩)
        else .ok (.on (position + 1) ⟨finished, startOf front pending, depth⟩))
    (hpush : Cuts t rest front (c :: pending) (position + width [c]) depth finished)
    (hclose : Cuts t rest (front ++ pending.reverse ++ [c]) [] (position + width [c]) 0
      (ended finished pending)) :
    Cuts t (c :: rest) front pending position depth finished := by
  have hc : ¬ IsHigh c := fun hhigh =>
    absurd (hhigh.isBlank.symm.trans hblank) Bool.false_ne_true
  by_cases hdepth : depth = 0
  · subst hdepth
    refine hclose.move [c] (h.walk_on [c] (List.cons_ne_nil _ _) h.lt ?_) ?_
    · rw [hturn, if_pos rfl, width_cons, width_nil, utf8Size_of_not_isHigh hc]
      rfl
    · rw [List.singleton_append, TokenScan.run_cons, TokenScan.step_blank hblank,
        TokenScan.close_eq]
  · have hin : 0 < depth := Nat.pos_of_ne_zero hdepth
    refine cuts_push h hc ?_ ?_ hpush
    · rw [hturn, if_neg hdepth, startOf_of_ne_nil (hopened hdepth)]
    · rw [TokenScan.run_cons, TokenScan.step_code fun _ => hin,
        TokenScan.code_push (isBlank_ne hblank).1 (fun _ => hin) hopen hclosing fun _ => hin]

/-- A slash that opens no comment. -/
theorem cuts_slash (h : At t position (front ++ pending.reverse) ('/' :: rest))
    (hcomment : depth = 0 → rest.head? ≠ some '/')
    (hpush : Cuts t rest front ('/' :: pending) (position + width ['/']) depth finished) :
    Cuts t ('/' :: rest) front pending position depth finished := by
  refine cuts_push h (by decide) ?_ ?_ hpush
  · rw [tokenTurn_single h (by decide) (by decide) (by decide) fun hc => hcomment hc.1 hc.2.2]
    rfl
  · by_cases hdepth : depth = 0
    · subst hdepth
      rw [TokenScan.run_cons]
      exact TokenScan.result_run_slash (hcomment rfl)
    · have hin : 0 < depth := Nat.pos_of_ne_zero hdepth
      rw [TokenScan.run_cons, TokenScan.step_code fun _ => hin,
        TokenScan.code_push (by decide) (fun _ => hin) rfl rfl fun _ => hin]

/-- A character outside of literals and comments. -/
theorem cuts_single (h : At t position (front ++ pending.reverse) (c :: rest))
    (hopened : depth ≠ 0 → pending ≠ []) (hquote : c ≠ '"')
    (hcomment : ¬ (depth = 0 ∧ c = '/' ∧ rest.head? = some '/'))
    (hpush : ∀ depth', Cuts t rest front (c :: pending) (position + width [c]) depth' finished)
    (hclose : Cuts t rest (front ++ pending.reverse ++ [c]) [] (position + width [c]) 0
      (ended finished pending))
    (hsplit : Cuts t rest (front ++ pending.reverse) [c] (position + width [c]) 0
      (ended finished pending)) :
    Cuts t (c :: rest) front pending position depth finished := by
  by_cases hat : c = '@'
  · subst hat
    exact cuts_at h (hpush depth) fun _ => hsplit
  by_cases hslash : c = '/'
  · subst hslash
    exact cuts_slash h (fun hdepth hhead => hcomment ⟨hdepth, rfl, hhead⟩) (hpush depth)
  by_cases hopen : isOpening c = true
  · have hc : ¬ IsHigh c := fun hhigh =>
      absurd (hhigh.isOpening.symm.trans hopen) Bool.false_ne_true
    refine cuts_push h hc ?_ ?_ (hpush (depth + 1))
    · rw [tokenTurn_single h hc hquote hat hcomment, if_pos hopen]
    · rw [TokenScan.run_cons, TokenScan.step_isOpening hopen]
  by_cases hclosing : isClosing c = true
  · have hc : ¬ IsHigh c := fun hhigh =>
      absurd (hhigh.isClosing.symm.trans hclosing) Bool.false_ne_true
    refine cuts_push h hc ?_ ?_ (hpush (depth - 1))
    · rw [tokenTurn_single h hc hquote hat hcomment, if_neg hopen, if_pos hclosing]
    · rw [TokenScan.run_cons, TokenScan.step_isClosing hclosing]
  have hopen := Bool.eq_false_iff.mpr hopen
  have hclosing := Bool.eq_false_iff.mpr hclosing
  by_cases hblank : isBlank c = true
  · have hc : ¬ IsHigh c := fun hhigh =>
      absurd (hhigh.isBlank.symm.trans hblank) Bool.false_ne_true
    refine cuts_blank h hopened hblank hopen hclosing ?_ (hpush depth) hclose
    rw [tokenTurn_single h hc hquote hat hcomment, hopen, hclosing, hblank]
    rfl
  have hblank := Bool.eq_false_iff.mpr hblank
  refine (hpush depth).move [c] ?_ ?_
  · rw [tokensFrom_plain h hquote hslash hat hopen hclosing hblank, begin_eq h]
    rfl
  · rw [List.singleton_append, TokenScan.run_cons, TokenScan.step_code fun hc => absurd hc hslash,
      TokenScan.code_push hquote (fun hc => absurd hc hat) hopen hclosing fun hb =>
        absurd (hblank.symm.trans hb) Bool.false_ne_true]

/-- What is left of the text goes into the token. -/
theorem cuts_rest (part : List Char) (hne : part ≠ [])
    (h : At t position (front ++ pending.reverse) part) :
    (Cutting.finish (String.ofList t) (marksOf t).length
        ⟨finished, some (width front), depth⟩).map (fun s => s.found.reverse)
      = .ok (ended finished (part.reverse ++ pending)).reverse := by
  have hend : At t (marksOf t).length (front ++ (part.reverse ++ pending).reverse) [] := by
    refine ⟨?_, ?_⟩
    · rw [h.text, List.reverse_append, List.reverse_reverse, List.append_nil, List.append_assoc]
    · rw [h.length, h.position, List.reverse_append, List.reverse_reverse, ← List.append_assoc,
        width_append _ part]
  have hopen : part.reverse ++ pending ≠ [] := fun hnil =>
    hne (List.reverse_eq_nil_iff.mp (List.append_eq_nil_iff.mp hnil).1)
  rw [← startOf_of_ne_nil hopen front, finish_eq hend]
  rfl

/-- With an open token or without, the search comes to what the scan comes to.  In brackets
    a token is open. -/
theorem cuts (h : At t position (front ++ pending.reverse) rest)
    (hopened : depth ≠ 0 → pending ≠ []) : Cuts t rest front pending position depth finished := by
  -- what is left to read gets shorter, whatever token is open
  induction hn : rest.length using Nat.strongRecOn
    generalizing rest position front pending depth finished with
  | ind n ih =>
      have hnext : ∀ (part after front' pending' : List Char) (depth' : Nat)
          (finished' : List String), part ≠ [] → rest = part ++ after →
          front' ++ pending'.reverse = front ++ pending.reverse ++ part →
          (depth' ≠ 0 → pending' ≠ []) →
          Cuts t after front' pending' (position + width part) depth' finished' := by
        intro part after front' pending' depth' finished' hne heq hread hopened'
        subst heq
        have hpos := List.length_pos_iff.mpr hne
        have hafter := h.move part
        rw [← hread] at hafter
        refine ih _ ?_ hafter hopened' rfl
        rw [← hn, List.length_append]
        omega
      have hpush : ∀ (part after : List Char) (depth' : Nat), part ≠ [] → rest = part ++ after →
          Cuts t after front (part.reverse ++ pending) (position + width part) depth' finished := by
        intro part after depth' hne heq
        refine hnext _ _ _ _ _ _ hne heq ?_ fun _ hnil => hne ?_
        · rw [List.reverse_append, List.reverse_reverse, List.append_assoc]
        · exact List.reverse_eq_nil_iff.mp (List.append_eq_nil_iff.mp hnil).1
      have hclose : ∀ part after : List Char, part ≠ [] → rest = part ++ after →
          Cuts t after (front ++ pending.reverse ++ part) [] (position + width part) 0
            (ended finished pending) := fun part after hne heq =>
        hnext _ _ _ _ _ _ hne heq (List.append_nil _) fun h => absurd rfl h
      cases rest with
      | nil =>
          have hend : (marksOf t).length = position := h.length
          rw [Cuts, tokensFrom, walk_finish (Nat.le_of_eq hend), hend, finish_eq h]
          show Except.ok (ended finished pending).reverse = _
          rw [TokenScan.run_nil, TokenScan.result_code]
      | cons c rest =>
          by_cases hquote : c = '"'
          · subst hquote
            have hturn : tokenTurn (String.ofList t) (marksOf t) position h.lt
                  ⟨finished, startOf front pending, depth⟩
                = .ok (.on (literalEnd (marksOf t) (position + 1))
                    ⟨finished, some (width front), depth⟩) := by
              rw [tokenTurn, if_pos (h.getElem (by decide) h.lt), begin_eq h]
            rcases h.literal_cases with ⟨inside, tail, hin, htail, rfl, hend⟩
              | ⟨inside, after, hin, heq, hend⟩
            · -- the token goes on to the end of the text
              rw [hend] at hturn
              rw [Cuts, TokenScan.result_run_unclosed hin htail, tokensFrom,
                walk_on h.lt hturn h.lt (Nat.le_refl _), walk_finish (Nat.le_refl _)]
              exact cuts_rest ('"' :: (inside ++ tail)) (List.cons_ne_nil _ _) h
            · have hlater := hpush _ after depth (List.cons_ne_nil _ _) heq
              rw [hend] at hturn
              rw [heq] at h ⊢
              refine hlater.move _ ((h.walk_on _ (List.cons_ne_nil _ _) _ hturn).trans ?_) ?_
              · rw [startOf_of_ne_nil (by simp), tokensFrom]
              · rw [TokenScan.run_append, TokenScan.run_literal hin]
          by_cases hcomment : depth = 0 ∧ c = '/' ∧ rest.head? = some '/'
          · obtain ⟨rfl, rfl, hhead⟩ := hcomment
            obtain ⟨rest, rfl⟩ := List.head?_eq_some_iff.mp hhead
            obtain ⟨remark, after, heq, hremark, hafter, hend⟩ := h.comment_cases
            have hlt := h.lt
            have hget : (marksOf t)[position] = '/' := h.getElem (by decide) hlt
            have hturn : tokenTurn (String.ofList t) (marksOf t) position h.lt
                  ⟨finished, startOf front pending, 0⟩
                = .ok (.on (position + width ('/' :: '/' :: remark))
                    ⟨ended finished pending, none, 0⟩) := by
              rw [tokenTurn, if_neg (by rw [hget]; decide),
                if_pos ⟨rfl, (h.startsComment (by decide) h.lt).mpr ⟨rfl, rfl⟩⟩, finish_eq h, hend]
              rfl
            have hlater := hclose _ after (List.cons_ne_nil _ _) heq
            rw [heq] at h ⊢
            exact hlater.move _ (h.walk_on _ (List.cons_ne_nil _ _) _ hturn)
              (TokenScan.result_run_remark hremark hafter)
          · exact cuts_single h hopened hquote hcomment
              (fun depth' => hpush [c] rest depth' (List.cons_ne_nil _ _) rfl)
              (hclose [c] rest (List.cons_ne_nil _ _) rfl)
              (hnext [c] rest _ [c] 0 _ (List.cons_ne_nil _ _) rfl rfl fun h => absurd rfl h)

/-- The search for tokens by positions finds those that the scan finds. -/
theorem tokens_eq (body : String) : Positions.tokens body = .ok (Schema.tokens body) := by
  have hcuts : Cuts body.toList body.toList [] [] 0 0 [] :=
    cuts (At.start body.toList) fun h => absurd rfl h
  have h : tokensFrom body.toList 0 ⟨[], none, 0⟩
      = .ok (TokenScan.run ⟨[], [], 0, .code⟩ body.toList).result := hcuts
  rw [tokensFrom, String.ofList_toList, ← marks_ofList, String.ofList_toList] at h
  exact h

/-- **Scanning is safe.**  On no text does anything go wrong in a search by positions: it
    comes to the blocks and the tokens of the text.  Literals and comments end within the
    text. -/
theorem scans_without_fault (text : String) :
    Positions.blocks text = .ok (Schema.blocks text)
      ∧ Positions.tokens text = .ok (Schema.tokens text)
      ∧ ∀ position : Nat, literalEnd (marks text) position ≤ (marks text).length
        ∧ lineEnd (marks text) position ≤ (marks text).length :=
  ⟨blocks_eq text, tokens_eq text, fun position =>
    ⟨literalEnd_le (marks text) position, lineEnd_le (marks text) position⟩⟩

/-- A literal with a backslash before a character of two bytes, and one that is not closed
    and ends in a backslash. -/
example : Positions.tokens "\"\\é\" ) \"\\" = .ok ["\"\\é\"", ")", "\"\\"] := by
  rw [tokens_eq]
  exact congrArg Except.ok (by decide)

end Positions

end Stencil.Schema
