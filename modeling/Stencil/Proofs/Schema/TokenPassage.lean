import Stencil.Proofs.Schema.Blueprint
import Stencil.Proofs.Schema.Shapes

/-! # Passages of a token scan

    What a token scan does on the shapes of a body: a filler ends the open
    token, a solid text is added to it, and a token is read as a whole.  So the
    tokens of a spaced body are the tokens it was made of (`tokens_body`). -/

namespace Stencil.Schema

open Stencil.Text (isBlank)

namespace TokenScan

/-! ## Runs -/

@[simp] theorem run_nil (s : TokenScan) : s.run [] = s := rfl

@[simp] theorem run_cons (s : TokenScan) (c : Char) (cs : List Char) :
    s.run (c :: cs) = (s.step c).run cs := rfl

@[simp] theorem run_append (s : TokenScan) (cs ds : List Char) :
    s.run (cs ++ ds) = (s.run cs).run ds :=
  List.foldl_append

variable {finished : List String} {pending : List Char} {depth : Nat}

/-! ## Single characters -/

/-- A character that is neither blank, quote nor bracket is added to the open
    token; an at sign and a slash only inside of brackets. -/
theorem code_push {c : Char} (hq : c ≠ '"') (ha : c = '@' → 0 < depth)
    (ho : isOpening c = false) (hc : isClosing c = false)
    (hb : isBlank c = true → 0 < depth) :
    code ⟨finished, pending, depth, .code⟩ c = ⟨finished, c :: pending, depth, .code⟩ := by
  have hat : (decide (c = '@') && decide (depth = 0) && pending.head? != some '@') = false := by
    by_cases h : c = '@'
    · rw [decide_eq_false (Nat.pos_iff_ne_zero.mp (ha h)), Bool.and_false, Bool.false_and]
    · rw [decide_eq_false h, Bool.false_and, Bool.false_and]
  have hblank : (isBlank c && decide (depth = 0)) = false := by
    cases h : isBlank c with
    | false => rfl
    | true => rw [decide_eq_false (Nat.pos_iff_ne_zero.mp (hb h)), Bool.and_false]
  rw [code, if_neg hq]
  show (if (decide (c = '@') && decide (depth = 0) && pending.head? != some '@') = true
    then _ else _) = _
  rw [hat, if_neg Bool.false_ne_true, ho, if_neg Bool.false_ne_true, hc,
    if_neg Bool.false_ne_true]
  show (if (isBlank c && decide (depth = 0)) = true then _ else _) = _
  rw [hblank, if_neg Bool.false_ne_true]
  rfl

/-- A character of code other than a slash outside of brackets is read at
    once. -/
theorem step_code {c : Char} (h : c = '/' → 0 < depth) :
    step ⟨finished, pending, depth, .code⟩ c
      = code ⟨finished, pending, depth, .code⟩ c := by
  have hslash : (decide (c = '/') && decide (depth = 0)) = false := by
    by_cases hc : c = '/'
    · rw [decide_eq_false (Nat.pos_iff_ne_zero.mp (h hc)), Bool.and_false]
    · rw [decide_eq_false hc, Bool.false_and]
  rw [step]
  show (if (decide (c = '/') && decide (depth = 0)) = true then _ else _) = _
  rw [hslash, if_neg Bool.false_ne_true]

theorem step_isOpening {c : Char} (h : isOpening c = true) :
    step ⟨finished, pending, depth, .code⟩ c = ⟨finished, c :: pending, depth + 1, .code⟩ := by
  simp only [isOpening, Bool.or_eq_true, decide_eq_true_eq] at h
  rcases h with (rfl | rfl) | rfl <;> rfl

theorem step_isClosing {c : Char} (h : isClosing c = true) :
    step ⟨finished, pending, depth, .code⟩ c = ⟨finished, c :: pending, depth - 1, .code⟩ := by
  simp only [isClosing, Bool.or_eq_true, decide_eq_true_eq] at h
  rcases h with (rfl | rfl) | rfl <;> rfl

theorem step_opening (shape : Bracket) :
    step ⟨finished, pending, depth, .code⟩ shape.opening
      = ⟨finished, shape.opening :: pending, depth + 1, .code⟩ :=
  step_isOpening (by cases shape <;> decide)

theorem step_closing (shape : Bracket) :
    step ⟨finished, pending, depth + 1, .code⟩ shape.closing
      = ⟨finished, shape.closing :: pending, depth, .code⟩ :=
  step_isClosing (by cases shape <;> decide)

/-- A slash that waited belongs to the token if no slash follows. -/
theorem step_waiting {c : Char} (h : c ≠ '/') :
    step ⟨finished, pending, 0, .slash⟩ c = step ⟨finished, '/' :: pending, 0, .code⟩ c := by
  rw [step_code fun hc => absurd hc h]
  exact if_neg h

/-- A blank outside of brackets ends the open token. -/
theorem step_blank {c : Char} (hb : isBlank c = true) :
    step ⟨finished, pending, 0, .code⟩ c = (⟨finished, pending, 0, .code⟩ : TokenScan).close := by
  simp only [isBlank, Bool.or_eq_true, decide_eq_true_eq] at hb
  rcases hb with (((rfl | rfl) | rfl) | rfl) | rfl <;> rfl

/-! ## Shapes -/

/-- The inside of a literal is added to the open token. -/
theorem run_quotable {inside : List Char} (h : Quotable inside) (pending : List Char) :
    run ⟨finished, pending, depth, .literal⟩ inside
      = ⟨finished, inside.reverse ++ pending, depth, .literal⟩ := by
  induction h generalizing pending with
  | nil => rfl
  | @plain c rest hq hb _ ih =>
      have hstep : step ⟨finished, pending, depth, .literal⟩ c
          = ⟨finished, c :: pending, depth, .literal⟩ := by
        rw [step]
        show (TokenScan.mk _ _ _ (Zone.literal.next c)) = _
        rw [Zone.next, if_neg hq, if_neg hb]
        rfl
      rw [run_cons, hstep, ih, List.reverse_cons, List.append_assoc]
      rfl
  | @escaped c rest _ ih =>
      rw [run_cons, run_cons]
      show run ⟨finished, c :: '\\' :: pending, depth, .literal⟩ rest = _
      rw [ih, List.reverse_cons, List.reverse_cons, List.append_assoc, List.append_assoc]
      rfl

/-- A whole literal is added to the open token. -/
theorem run_literal {inside : List Char} (h : Quotable inside) :
    run ⟨finished, pending, depth, .code⟩ ('"' :: (inside ++ ['"']))
      = ⟨finished, ('"' :: (inside ++ ['"'])).reverse ++ pending, depth, .code⟩ := by
  have hopen : step ⟨finished, pending, depth, .code⟩ '"'
      = ⟨finished, '"' :: pending, depth, .literal⟩ := by
    rw [step_code fun h => absurd h (by decide)]
    rfl
  have hclose : ∀ p : List Char, step ⟨finished, p, depth, .literal⟩ '"'
      = ⟨finished, '"' :: p, depth, .code⟩ := fun _ => rfl
  rw [run_cons, hopen, run_append, run_quotable h, run_cons, hclose, run_nil]
  simp

/-- Text with matching brackets, inside of brackets, is added to the open
    token. -/
theorem run_nested {inside : List Char} (h : Nested inside) (depth : Nat)
    (pending : List Char) :
    run ⟨finished, pending, depth + 1, .code⟩ inside
      = ⟨finished, inside.reverse ++ pending, depth + 1, .code⟩ := by
  induction h generalizing depth pending with
  | nil => rfl
  | @plain c rest hq ho hc _ _ ih =>
      rw [run_cons, step_code (fun _ => Nat.succ_pos _),
        code_push hq (fun _ => Nat.succ_pos _) ho hc (fun _ => Nat.succ_pos _), ih,
        List.reverse_cons, List.append_assoc]
      rfl
  | @literal inside rest hin _ ih =>
      rw [run_cons, run_append]
      show run (run ⟨finished, '"' :: pending, depth + 1, .literal⟩ inside) ('"' :: rest) = _
      rw [run_quotable hin, run_cons]
      show run ⟨finished, '"' :: (inside.reverse ++ '"' :: pending), depth + 1, .code⟩ rest = _
      rw [ih]
      simp
  | @group shape inside rest _ _ ihin ihrest =>
      rw [run_cons, step_opening, run_append, ihin, run_cons, step_closing, ihrest]
      simp

/-- A solid text is added to the open token. -/
theorem run_solid {solid : List Char} (h : Solid solid) (pending : List Char) :
    run ⟨finished, pending, 0, .code⟩ solid
      = ⟨finished, solid.reverse ++ pending, 0, .code⟩ := by
  induction h generalizing pending with
  | nil => rfl
  | @plain c rest hplain _ ih =>
      obtain ⟨hq, ha, hs, ho, hc, hb⟩ := isPlain_ne hplain
      rw [run_cons, step_code (fun h => absurd h hs),
        code_push hq (fun h => absurd h ha) ho hc (fun h => absurd (hb.symm.trans h) (by decide)),
        ih, List.reverse_cons, List.append_assoc]
      rfl
  | @group shape inside rest hin _ ih =>
      rw [run_cons, step_opening, run_append, run_nested hin, run_cons, step_closing, ih]
      simp

/-- The text of a comment is dropped. -/
theorem run_remark {remark : List Char} (h : '\n' ∉ remark) :
    run ⟨finished, pending, depth, .comment⟩ remark
      = ⟨finished, pending, depth, .comment⟩ := by
  induction remark with
  | nil => rfl
  | cons c more ih =>
      rw [List.mem_cons, not_or] at h
      rw [run_cons]
      show run ⟨finished, pending, depth, Zone.comment.next c⟩ more = _
      rw [Zone.next, if_neg (Ne.symm h.1)]
      exact ih h.2

/-! ## Fillers -/

/-- The finished tokens once the open one is ended, too. -/
def ended (finished : List String) (pending : List Char) : List String :=
  if pending.isEmpty then finished else String.ofList pending.reverse :: finished

theorem close_eq {zone : Zone} :
    (⟨finished, pending, depth, zone⟩ : TokenScan).close
      = ⟨ended finished pending, [], depth, zone⟩ := by
  cases pending with
  | nil => rfl
  | cons c pending => rfl

/-- A comment ends the open token. -/
theorem run_comment {remark : List Char} (h : '\n' ∉ remark) :
    run ⟨finished, pending, 0, .code⟩ ('/' :: '/' :: remark)
      = ⟨ended finished pending, [], 0, .comment⟩ := by
  rw [run_cons, run_cons]
  show run { (⟨finished, pending, 0, .slash⟩ : TokenScan).close with zone := .comment } remark = _
  rw [close_eq, run_remark h]

/-- A filler changes nothing where no token is open. -/
theorem run_filler_nil {filler : List Char} (h : Filler filler) :
    run ⟨finished, [], 0, .code⟩ filler = ⟨finished, [], 0, .code⟩ := by
  induction h with
  | nil => rfl
  | @blank c rest hb _ ih => rw [run_cons, step_blank hb]; exact ih
  | @comment remark rest hin _ ih =>
      rw [← List.cons_append, ← List.cons_append, run_append, run_comment hin]
      exact ih

/-- A filler with something in it ends the open token. -/
theorem run_filler {filler : List Char} (h : Filler filler) (hne : filler ≠ []) :
    run ⟨finished, pending, 0, .code⟩ filler
      = ⟨ended finished pending, [], 0, .code⟩ := by
  cases h with
  | nil => exact absurd rfl hne
  | @blank c rest hb hrest =>
      rw [run_cons, step_blank hb, close_eq, run_filler_nil hrest]
  | @comment remark rest hin hrest =>
      rw [← List.cons_append, ← List.cons_append, run_append, run_comment hin]
      exact run_filler_nil hrest

/-! ## Tokens -/

/-- An at sign outside of brackets ends the open token and starts another one, if it
    follows no other at sign. -/
theorem step_at (h : pending.head? ≠ some '@') :
    step ⟨finished, pending, 0, .code⟩ '@' = ⟨ended finished pending, ['@'], 0, .code⟩ := by
  rw [step_code (fun h => absurd h (by decide)), code, if_neg (by decide)]
  show (if (pending.head? != some '@') = true then
    (⟨finished, pending, 0, .code⟩ : TokenScan).close.push '@' else _) = _
  rw [if_pos (bne_iff_ne.mpr h), close_eq]
  rfl

/-- An at sign after another one belongs to the same token. -/
theorem step_at_at (h : pending.head? = some '@') :
    step ⟨finished, pending, 0, .code⟩ '@' = ⟨finished, '@' :: pending, 0, .code⟩ := by
  have hsame : (pending.head? != some '@') = false := bne_eq_false_iff_eq.mpr h
  rw [step_code fun h => absurd h (by decide), code, if_neg (by decide)]
  show (if (pending.head? != some '@') = true then _ else _) = _
  rw [hsame]
  rfl

/-- A token is read as a whole where no token is open.  One that starts with an
    at sign also ends the open token, if that does not end in such a sign. -/
theorem run_token {token : List Char} (h : IsToken token)
    (hopen : pending ≠ [] → token.head? = some '@' ∧ pending.head? ≠ some '@') :
    run ⟨finished, pending, 0, .code⟩ token
      = ⟨ended finished pending, token.reverse, 0, .code⟩ := by
  obtain ⟨sign, solid, hsign, hne, hsolid, rfl⟩ := h
  have hat : pending.head? ≠ some '@' := by
    cases pending with
    | nil => intro h; cases h
    | cons c pending => exact (hopen (List.cons_ne_nil _ _)).2
  rcases hsign with rfl | rfl | rfl
  · -- a token without an at sign does not end the one before
    have hnil : pending = [] :=
      Classical.byContradiction fun hp => hsolid.head?_ne (hopen hp).1
    subst hnil
    rw [List.nil_append, run_solid hsolid, List.append_nil]
    rfl
  · rw [List.cons_append, List.nil_append, run_cons, step_at hat, run_solid hsolid,
      List.reverse_cons]
  · rw [List.cons_append, List.cons_append, List.nil_append, run_cons, step_at hat, run_cons]
    show run ⟨ended finished pending, ['@', '@'], 0, .code⟩ solid = _
    rw [run_solid hsolid, List.reverse_cons, List.reverse_cons, List.append_assoc]
    rfl

/-- The result of a scan that stands in code. -/
theorem result_code :
    result ⟨finished, pending, depth, .code⟩ = (ended finished pending).reverse := by
  rw [result]
  show (TokenScan.close ⟨finished, pending, depth, .code⟩).finished.reverse = _
  rw [close_eq]

/-- The result of a scan that stands in a comment. -/
theorem result_comment : result ⟨finished, [], depth, .comment⟩ = finished.reverse := rfl

/-- A spaced body has the tokens it was made of. -/
theorem result_spaced {tokens : List (List Char)} {text : List Char}
    (h : Blueprint.Spaced tokens text) (htokens : ∀ token ∈ tokens, IsToken token)
    (hopen : pending ≠ [] → (∀ next ∈ tokens.head?, next.head? = some '@')
      ∧ pending.head? ≠ some '@') :
    (run ⟨finished, pending, 0, .code⟩ text).result
      = (ended finished pending).reverse ++ tokens.map String.ofList := by
  induction h generalizing finished pending with
  | nil => rw [run_nil, result_code, List.map_nil, List.append_nil]
  | @cons token gap rest tokens hgap hglue _ ih =>
      have htoken : IsToken token := htokens token (List.mem_cons_self ..)
      obtain ⟨-, hne, hlast, -⟩ := htoken.facts
      have hrest : ∀ token ∈ tokens, IsToken token :=
        fun t ht => htokens t (List.mem_cons_of_mem _ ht)
      have hended : ∀ finished, ended finished token.reverse
          = String.ofList token :: finished := by
        intro finished
        obtain ⟨c, more, rfl⟩ := List.exists_cons_of_ne_nil hne
        rw [ended, if_neg (by simp), List.reverse_reverse]
      rw [run_append, run_token htoken (fun hp => ⟨(hopen hp).1 token rfl, (hopen hp).2⟩),
        run_append]
      -- without a gap the next token must end this one by its at sign
      by_cases hg : gap = []
      · subst hg
        rw [run_nil, ih hrest, hended]
        · simp
        · intro _
          rw [List.head?_reverse]
          exact ⟨hglue rfl, hlast⟩
      · rw [run_filler hgap hg, ih hrest (fun hp => absurd rfl hp), hended]
        simp [ended]

end TokenScan

/-- The tokens of a body are those it was made of. -/
theorem tokens_body {toks : List (List Char)} {text : List Char}
    (h : Blueprint.Body toks text) (htoks : ∀ token ∈ toks, IsToken token) :
    tokens (String.ofList text) = toks.map String.ofList := by
  obtain ⟨lead, rest, hlead, hrest, rfl⟩ := h
  rw [tokens, String.toList_ofList, TokenScan.run_append]
  show (TokenScan.run (TokenScan.run ⟨[], [], 0, .code⟩ lead) rest).result = _
  rw [TokenScan.run_filler_nil hlead,
    TokenScan.result_spaced hrest htoks (fun hp => absurd rfl hp)]
  rfl

end Stencil.Schema
