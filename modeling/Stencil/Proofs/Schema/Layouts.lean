import Stencil.Proofs.Schema.Pieces
import Stencil.Schema.Index

/-! # Layouts

    The tokens of a body are those of any row of pieces that makes it up: from each piece
    the scan takes the token that it is, or none (`TokenScan.Follows.result_piece`).  So
    blanks and comments between the tokens say nothing, and one blank between each two of
    them will do (`standAfter_spaced`). -/

namespace Stencil.Schema

open Stencil.Text (isBlank)

variable {front cs text : List Char} {c : Char} {pieces : List Piece} {piece : Piece}

namespace TokenScan

variable {s : TokenScan} {finished : List String}

/-! ## Scans of pieces -/

/-- The tokens before the open one, and the open one if there is one. -/
theorem ended_eq : ended finished cs.reverse = (opened finished cs).result.reverse := by
  rw [result_opened, List.reverse_reverse]

/-- A blank outside of brackets and literals ends the open token, and so does the end of a
    comment's line. -/
theorem Follows.step_blank (h : s.Follows text) (hblank : isBlank c = true)
    (hplace : Footing.after (text ++ [c]) = .on (.code 0)) :
    s.step c = opened s.result.reverse [] := by
  obtain ⟨hfooting, hparts⟩ := h
  rw [Footing.after_snoc, hfooting] at hplace
  cases hparts with
  | @token pieces front cs =>
      have hopen : Shelter.after cs = .code 0 := by
        by_cases hbreaks : Breaks cs c
        · exact hbreaks.1
        · have hnext : Shelter.after (cs ++ [c]) = .code 0 := by
            rw [← footing_opened_snoc hbreaks] at hplace
            exact isLevel_footing_opened.mp (Or.inl hplace)
          rw [Shelter.after_snoc] at hnext
          exact (Shelter.next_blank_eq_iff hblank).mp hnext
      rw [step_opened_blank hopen hblank, ended_eq]
      rfl
  | @comment pieces front remark =>
      have hc : c = '\n' := Classical.byContradiction fun hc => by
        have hstays : Footing.comment.next c = .comment := if_neg hc
        exact nomatch hstays.symm.trans hplace
      rw [hc, result_comment, List.reverse_reverse]
      rfl

/-- A comment ends the open token. -/
theorem Follows.run_comment {remark : List Char} (h : s.Follows text) (hremark : '\n' ∉ remark)
    (hplace : Footing.after text = .on (.code 0)) :
    s.run ('/' :: '/' :: remark) = ⟨s.result.reverse, [], 0, .comment⟩ := by
  obtain ⟨hfooting, hparts⟩ := h
  rw [hfooting] at hplace
  cases hparts with
  | @token pieces front cs =>
      rw [footing_opened] at hplace
      split at hplace
      case isTrue => cases hplace
      case isFalse hwaits =>
        have hopen : Shelter.after cs = .code 0 := Footing.on.inj hplace
        rw [← ended_eq, opened, if_neg hwaits, hopen]
        exact TokenScan.run_comment hremark
  | comment => cases hplace

/-- A token is read as the open one where it starts as it should. -/
theorem Follows.run_token (h : s.Follows text) (hunbroken : Unbroken cs)
    (hstart : StartsToken text cs) : s.run cs = opened s.result.reverse cs := by
  obtain ⟨hfooting, hparts⟩ := h
  obtain ⟨hlevel, hstart⟩ := hstart
  rw [hfooting] at hlevel
  cases hparts with
  | comment => rcases hlevel with hplace | hplace <;> cases hplace
  | @token pieces front last hends htext =>
      subst htext
      have hopen : Shelter.after last = .code 0 := isLevel_footing_opened.mp hlevel
      rw [← ended_eq]
      rcases List.eq_nil_or_concat last with rfl | ⟨before, d, rfl⟩
      · -- no token is open
        exact run_unbroken hunbroken
      · rw [List.concat_eq_append] at hopen hends hstart ⊢
        have hd : (front ++ (before ++ [d])).getLast? = some d := by
          rw [← List.append_assoc, List.getLast?_concat]
        rw [hd] at hstart
        rcases hstart with hblank | ⟨hat, hd'⟩
        · -- a blank would have ended the open token
          rw [Shelter.after_snoc] at hopen
          have hblank : isBlank d = true := hblank d rfl
          refine absurd ⟨?_, Or.inl hblank⟩ (unbroken_snoc_iff.mp hends.unbroken).2
          exact (Shelter.next_blank_eq_iff hblank).mp hopen
        · obtain ⟨more, rfl⟩ := List.head?_eq_some_iff.mp hat
          have hend : (before ++ [d]).getLast? ≠ some '@' := by rwa [List.getLast?_concat]
          have hsign : Unbroken (['@'] ++ more) := hunbroken
          rw [run_cons, step_opened_at hopen hend]
          exact run_opened more hsign

/-- From a piece the scan takes the token that it is. -/
theorem Follows.result_piece (h : s.Follows text) (hpiece : piece.StandsAfter text) :
    (s.run piece.chars).result = s.result ++ piece.token?.toList := by
  cases piece with
  | blank c =>
      obtain ⟨hblank, hplace⟩ := hpiece
      show (s.step c).result = _
      rw [h.step_blank hblank hplace, result_opened]
      exact (List.reverse_reverse _).trans (List.append_nil _).symm
  | comment remark =>
      obtain ⟨hremark, hplace⟩ := hpiece
      show (s.run ('/' :: '/' :: remark)).result = _
      rw [h.run_comment hremark hplace, result_comment, List.reverse_reverse]
      exact (List.append_nil _).symm
  | token cs =>
      obtain ⟨hne, hunbroken, hstart⟩ := hpiece
      show (s.run cs).result = _
      rw [h.run_token hunbroken hstart, result_opened, ended, if_neg (by simpa using hne),
        List.reverse_cons, List.reverse_reverse, List.reverse_reverse]
      rfl

/-- From a row of pieces it takes the tokens among them. -/
theorem Follows.result_pieces (h : s.Follows front) (hstand : StandAfter front pieces) :
    (s.run (textOf pieces)).result = s.result ++ tokensOf pieces := by
  induction pieces generalizing front s with
  | nil => exact (List.append_nil _).symm
  | cons piece pieces ih =>
      have htext : textOf (piece :: pieces) = piece.chars ++ textOf pieces := rfl
      have htokens : tokensOf (piece :: pieces) = piece.token?.toList ++ tokensOf pieces := by
        cases piece <;> rfl
      rw [htext, run_append, ih (h.run piece.chars) hstand.2, h.result_piece hstand.1, htokens,
        List.append_assoc]

end TokenScan

theorem IsLayout.tokens_eq {body : String} (h : IsLayout pieces body.toList) :
    tokens body = tokensOf pieces := by
  rw [tokens, h.text]
  exact TokenScan.follows_start.result_pieces h.stand

/-! ## One blank between tokens -/

/-- Tokens with one blank between each two of them. -/
def spaced : List String → List Piece
  | [] => []
  | [token] => [.token token.toList]
  | token :: next :: rest => .token token.toList :: .blank ' ' :: spaced (next :: rest)

theorem textOf_spaced (tokens : List String) :
    textOf (spaced tokens) = (" ".intercalate tokens).toList := by
  induction tokens using spaced.induct with
  | case1 => rfl
  | case2 token =>
      rw [String.intercalate_singleton]
      exact List.append_nil _
  | case3 token next rest ih =>
      have htext : textOf (spaced (token :: next :: rest))
          = token.toList ++ ([' '] ++ textOf (spaced (next :: rest))) := rfl
      rw [htext, ih, String.intercalate_cons_cons, String.toList_append, String.toList_append,
        List.append_assoc]
      rfl

theorem tokensOf_spaced (tokens : List String) : tokensOf (spaced tokens) = tokens := by
  induction tokens using spaced.induct with
  | case1 => rfl
  | case2 token => exact congrArg (List.cons · []) String.ofList_toList
  | case3 token next rest ih =>
      have htokens : tokensOf (spaced (token :: next :: rest))
          = String.ofList token.toList :: tokensOf (spaced (next :: rest)) := rfl
      rw [htokens, ih, String.ofList_toList]

/-- A token that leaves nothing open leaves a body level. -/
theorem Footing.isLevel_after_append (hfront : Footing.after front = .on (.code 0))
    (h : Unbroken cs) (hopen : Shelter.after cs = .code 0) :
    (Footing.after (front ++ cs)).IsLevel := by
  have hcs : Footing.after (front ++ cs) = (TokenScan.opened [] cs).footing := by
    rw [Footing.after_append, hfront, ← TokenScan.run_unbroken h]
    exact (TokenScan.follows_start.run cs).footing
  rw [hcs]
  exact TokenScan.isLevel_footing_opened.mpr hopen

/-- Outside of brackets and literals a token may stand after a blank. -/
theorem Piece.standsAfter_token {token : String} (hfront : Footing.after front = .on (.code 0))
    (hblank : ∀ c ∈ front.getLast?, isBlank c = true)
    (htoken : token ≠ "" ∧ Unbroken token.toList) :
    (Piece.token token.toList).StandsAfter front := by
  refine ⟨fun hnil => htoken.1 ?_, htoken.2, Or.inl hfront, Or.inl hblank⟩
  exact String.toList_eq_nil_iff.mp hnil

/-- Tokens may stand in such a row if only the last one leaves something open. -/
theorem standAfter_spaced {tokens : List String} (hfront : Footing.after front = .on (.code 0))
    (hblank : ∀ c ∈ front.getLast?, isBlank c = true)
    (htokens : ∀ token ∈ tokens, token ≠ "" ∧ Unbroken token.toList)
    (hclosed : ∀ token ∈ tokens.dropLast, Shelter.after token.toList = .code 0) :
    StandAfter front (spaced tokens) := by
  induction tokens using spaced.induct generalizing front with
  | case1 => trivial
  | case2 token =>
      exact ⟨Piece.standsAfter_token hfront hblank (htokens token (List.mem_cons_self ..)), trivial⟩
  | case3 token next rest ih =>
      have htoken := htokens token (List.mem_cons_self ..)
      have hlevel : (Footing.after (front ++ token.toList)).IsLevel :=
        Footing.isLevel_after_append hfront htoken.2 (hclosed token (List.mem_cons_self ..))
      have hnext : Footing.after (front ++ token.toList ++ [' ']) = .on (.code 0) := by
        rw [Footing.after_snoc, hlevel.next_blank rfl]
      refine ⟨Piece.standsAfter_token hfront hblank htoken, ⟨rfl, hnext⟩, ih hnext ?_ ?_ ?_⟩
      · intro c hc
        rw [Piece.chars, List.getLast?_concat] at hc
        exact Option.some.inj hc ▸ rfl
      · exact fun more hmem => htokens more (List.mem_cons_of_mem _ hmem)
      · exact fun more hmem => hclosed more (List.mem_cons_of_mem _ hmem)

/-- The tokens of a body, with one blank between each two of them, are the tokens of that text.  So
    a body has these tokens just if they are the tokens of a row of pieces that makes it up,
    whatever blanks and comments there are among them, and it declares the same then. -/
theorem tokens_respaced (body : String) :
    tokens (" ".intercalate (tokens body)) = tokens body
      ∧ ∀ other : String,
        (tokens other = tokens body
          ↔ ∃ pieces, IsLayout pieces other.toList ∧ tokensOf pieces = tokens body)
        ∧ (tokens other = tokens body → ∀ header : Header,
          Block.model? ⟨header, other⟩ = Block.model? ⟨header, body⟩
            ∧ Block.enum? ⟨header, other⟩ = Block.enum? ⟨header, body⟩) := by
  refine ⟨?_, fun other => ⟨⟨fun h => ?_, ?_⟩, fun h header => ?_⟩⟩
  · obtain ⟨-, -, -, hclosed⟩ := (TokenScan.follows_start.run body.toList).exists_pieces
    have hlayout : IsLayout (spaced (tokens body)) (" ".intercalate (tokens body)).toList :=
      ⟨(textOf_spaced _).symm, standAfter_spaced rfl (fun _ h => nomatch h)
        (fun _ => of_mem_tokens) hclosed⟩
    rw [hlayout.tokens_eq, tokensOf_spaced]
  · obtain ⟨pieces, hlayout, htokens, -⟩ :=
      (TokenScan.follows_start.run other.toList).exists_pieces
    exact ⟨pieces, hlayout, htokens.trans h⟩
  · rintro ⟨pieces, hlayout, htokens⟩
    exact hlayout.tokens_eq.trans htokens
  · rw [Block.model?, Block.model?, Block.enum?, Block.enum?]
    exact ⟨by rw [h], by rw [h]⟩

/-- A bracket too many, attributes glued to what stands before them, a comment, and at the end a
    token that leaves open a literal and two brackets. -/
theorem tokens_respaced_unclosed :
    tokens "a)b Int @id @@map([\"x)" = ["a)b", "Int", "@id", "@@map([\"x)"]
      ∧ Block.model? ⟨⟨.model, "Post", 0⟩, "a)b Int@id // key\n@@map([\"x)"⟩
        = Block.model? ⟨⟨.model, "Post", 0⟩, "a)b Int @id @@map([\"x)"⟩ := by
  have htokens : tokens "a)b Int@id // key\n@@map([\"x)"
      = ["a)b", "Int", "@id", "@@map([\"x)"] := by decide
  have hjoined : " ".intercalate ["a)b", "Int", "@id", "@@map([\"x)"]
      = "a)b Int @id @@map([\"x)" := by decide
  obtain ⟨hrespaced, -⟩ := tokens_respaced "a)b Int@id // key\n@@map([\"x)"
  rw [htokens, hjoined] at hrespaced
  obtain ⟨-, hother⟩ := tokens_respaced "a)b Int @id @@map([\"x)"
  exact ⟨hrespaced, ((hother _).2 (htokens.trans hrespaced.symm) _).1⟩

end Stencil.Schema
