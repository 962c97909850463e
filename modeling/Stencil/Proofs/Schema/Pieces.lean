import Stencil.Proofs.Schema.Unbroken

/-! # Bodies, piece by piece

    A body is a row of pieces: blanks, comments and tokens (`Piece`).  Where each of them
    may stand is said of the text before it, read from the beginning of the body with its
    comments passed over (`Footing.after`): a comment outside of brackets and literals, a
    token there, too, and after a blank, unless it opens with an at sign.

    Every body is such a row of pieces, and the tokens among them are those that the scan
    finds (`tokens_in_pieces`): a character of the open token leads on with it, or it
    breaks the token and another piece begins (`TokenScan.Follows.step`). -/

namespace Stencil.Schema

open Stencil.Text (isBlank)

variable {front cs text : List Char} {c : Char}

/-! ## Footing -/

/-- Where a place of a body stands. -/
inductive Footing where
  /-- Inside of brackets or of a literal, or of nothing. -/
  | on (shelter : Shelter)
  /-- Inside of nothing, after a slash that opens a comment if another one follows. -/
  | slash
  /-- Inside of a comment. -/
  | comment
deriving DecidableEq, Repr

namespace Footing

/-- The place after a character.  In brackets and literals a slash is just a slash. -/
def next : Footing → Char → Footing
  | .on shelter, c => if shelter = .code 0 ∧ c = '/' then .slash else .on (shelter.next c)
  | .slash, c => if c = '/' then .comment else .on ((Shelter.code 0).next c)
  | .comment, c => if c = '\n' then .on (.code 0) else .comment

/-- The place after the front of a body. -/
def after (front : List Char) : Footing :=
  front.foldl next (.on (.code 0))

/-- Whether no bracket, literal or comment is open. -/
def IsLevel (place : Footing) : Prop :=
  place = .on (.code 0) ∨ place = .slash

instance (place : Footing) : Decidable place.IsLevel :=
  inferInstanceAs (Decidable (_ ∨ _))

theorem after_append (front more : List Char) :
    after (front ++ more) = more.foldl next (after front) :=
  List.foldl_append

theorem after_snoc (front : List Char) (c : Char) : after (front ++ [c]) = (after front).next c :=
  List.foldl_append

/-- A slash waits only where nothing is open. -/
theorem eq_of_next_eq_slash {place : Footing} (h : place.next c = .slash) :
    place = .on (.code 0) := by
  cases place with
  | on shelter =>
      rw [next] at h
      split at h
      case isTrue hslash => rw [hslash.1]
      case isFalse => cases h
  | slash =>
      rw [next] at h
      split at h <;> cases h
  | comment =>
      rw [next] at h
      split at h <;> cases h

/-- After a blank nothing is open if nothing was. -/
theorem IsLevel.next_blank {place : Footing} (h : place.IsLevel) (hblank : isBlank c = true) :
    place.next c = .on (.code 0) := by
  have hslash := (Shelter.ne_of_isBlank hblank).2.2.1
  have hstays : (Shelter.code 0).next c = .code 0 := (Shelter.next_blank_eq_iff hblank).mpr rfl
  rcases h with rfl | rfl
  · rw [next, if_neg fun h => hslash h.2, hstays]
  · rw [next, if_neg hslash, hstays]

end Footing

/-! ## Pieces -/

/-- A piece of a body. -/
inductive Piece where
  | blank (c : Char)
  /-- What stands after two slashes, up to the end of the line. -/
  | comment (text : List Char)
  | token (text : List Char)
deriving DecidableEq, Repr

/-- Whether a token opens where it should: nothing is open there, and the character before it is
    a blank, if there is one; or the token opens with an at sign that follows no other one. -/
def StartsToken (front text : List Char) : Prop :=
  (Footing.after front).IsLevel
    ∧ ((∀ c ∈ front.getLast?, isBlank c = true)
      ∨ text.head? = some '@' ∧ front.getLast? ≠ some '@')

namespace Piece

/-- The characters of a piece. -/
def chars : Piece → List Char
  | .blank c => [c]
  | .comment text => '/' :: '/' :: text
  | .token text => text

/-- The token that a piece is, if it is one. -/
def token? : Piece → Option String
  | .blank _ => none
  | .comment _ => none
  | .token text => some (String.ofList text)

/-- Whether a piece may stand after a text.  Nothing is open after a blank and before a comment;
    what a token leaves open is no matter. -/
def StandsAfter (front : List Char) : Piece → Prop
  | .blank c => isBlank c = true ∧ Footing.after (front ++ [c]) = .on (.code 0)
  | .comment text => '\n' ∉ text ∧ Footing.after front = .on (.code 0)
  | .token text => text ≠ [] ∧ Unbroken text ∧ StartsToken front text

end Piece

/-- The text of a row of pieces. -/
def textOf (pieces : List Piece) : List Char :=
  pieces.flatMap Piece.chars

/-- The tokens among pieces. -/
def tokensOf (pieces : List Piece) : List String :=
  pieces.filterMap Piece.token?

/-- Whether pieces may stand in a row after a text. -/
def StandAfter : List Char → List Piece → Prop
  | _, [] => True
  | front, piece :: pieces => piece.StandsAfter front ∧ StandAfter (front ++ piece.chars) pieces

/-- Whether a body is a row of pieces, each of which stands where it may. -/
structure IsLayout (pieces : List Piece) (body : List Char) : Prop where
  text : body = textOf pieces
  stand : StandAfter [] pieces

variable {pieces : List Piece} {piece : Piece}

theorem textOf_snoc (pieces : List Piece) (piece : Piece) :
    textOf (pieces ++ [piece]) = textOf pieces ++ piece.chars := by
  rw [textOf, List.flatMap_append, List.flatMap_singleton]
  rfl

theorem tokensOf_snoc (pieces : List Piece) (piece : Piece) :
    tokensOf (pieces ++ [piece]) = tokensOf pieces ++ piece.token?.toList := by
  rw [tokensOf, List.filterMap_append]
  cases piece <;> rfl

theorem standAfter_snoc_iff : StandAfter front (pieces ++ [piece])
    ↔ StandAfter front pieces ∧ piece.StandsAfter (front ++ textOf pieces) := by
  induction pieces generalizing front with
  | nil =>
      have hfront : front ++ textOf [] = front := List.append_nil front
      rw [hfront]
      exact and_comm
  | cons first pieces ih =>
      have hfront : front ++ textOf (first :: pieces) = front ++ first.chars ++ textOf pieces := by
        rw [List.append_assoc]
        rfl
      rw [hfront, List.cons_append, StandAfter, StandAfter, ih, and_assoc]

/-- A piece that is no token adds no token. -/
theorem tokensOf_snoc_of_none (pieces : List Piece) (piece : Piece) (h : piece.token? = none) :
    tokensOf (pieces ++ [piece]) = tokensOf pieces := by
  rw [tokensOf_snoc, h]
  exact List.append_nil _

theorem IsLayout.snoc (h : IsLayout pieces text) (hpiece : piece.StandsAfter text) :
    IsLayout (pieces ++ [piece]) (text ++ piece.chars) where
  text := by rw [textOf_snoc, h.text]
  stand := by
    rw [standAfter_snoc_iff]
    refine ⟨h.stand, ?_⟩
    rw [List.nil_append, ← h.text]
    exact hpiece

/-- Whether a body is a row of pieces, and its tokens leave nothing open. -/
structure IsClosedLayout (pieces : List Piece) (body : List Char) : Prop where
  layout : IsLayout pieces body
  closed : ∀ token ∈ tokensOf pieces, Shelter.after token.toList = .code 0

theorem IsClosedLayout.snoc (h : IsClosedLayout pieces text) (hnone : piece.token? = none)
    (hpiece : piece.StandsAfter text) :
    IsClosedLayout (pieces ++ [piece]) (text ++ piece.chars) where
  layout := h.layout.snoc hpiece
  closed := by
    rw [tokensOf_snoc_of_none pieces piece hnone]
    exact h.closed

/-! ## Starts of tokens -/

theorem StartsToken.snoc (h : StartsToken front cs) (c : Char) : StartsToken front (cs ++ [c]) := by
  refine ⟨h.1, h.2.imp_right fun hat => ⟨?_, hat.2⟩⟩
  rw [List.head?_append, hat.1]
  rfl

theorem StartsToken.of_snoc (h : StartsToken front (cs ++ [c])) (hc : c ≠ '@') :
    StartsToken front cs := by
  refine ⟨h.1, h.2.imp_right fun hat => ⟨?_, hat.2⟩⟩
  obtain ⟨hat, -⟩ := hat
  cases cs with
  | nil => exact absurd (Option.some.inj hat) hc
  | cons d cs => exact hat

/-! ## Scans -/

namespace TokenScan

variable {s : TokenScan} {finished : List String}

/-- The place of a scan. -/
def footing (s : TokenScan) : Footing :=
  match s.zone with
  | .code => .on (.code s.depth)
  | .slash => .slash
  | .literal => .on (.literal s.depth)
  | .escape => .on (.escape s.depth)
  | .comment => .comment

theorem footing_opened : (opened finished cs).footing
    = if Shelter.after cs = .code 0 ∧ cs.getLast? = some '/' then .slash
      else .on (Shelter.after cs) := by
  rw [opened]
  split
  · rfl
  · cases hplace : Shelter.after cs <;> rfl

theorem isLevel_footing_opened :
    (opened finished cs).footing.IsLevel ↔ Shelter.after cs = .code 0 := by
  rw [footing_opened, Footing.IsLevel]
  split
  case isTrue hwaits => exact iff_of_true (Or.inr rfl) hwaits.1
  case isFalse => simp

theorem footing_opened_snoc (h : ¬ Breaks cs c) :
    (opened finished (cs ++ [c])).footing = (opened finished cs).footing.next c := by
  rw [footing_opened, footing_opened, Shelter.after_snoc, List.getLast?_concat]
  by_cases hwaits : Shelter.after cs = .code 0 ∧ cs.getLast? = some '/'
  · have hc : c ≠ '/' := fun hc => h ⟨hwaits.1, Or.inr (Or.inl ⟨hc, hwaits.2⟩)⟩
    rw [if_pos hwaits, if_neg fun hslash => hc (Option.some.inj hslash.2), Footing.next, if_neg hc,
      hwaits.1]
  · rw [if_neg hwaits, Footing.next]
    by_cases hslash : Shelter.after cs = .code 0 ∧ c = '/'
    · obtain ⟨hplace, rfl⟩ := hslash
      rw [if_pos ⟨Shelter.next_slash_eq_iff.mpr hplace, rfl⟩, if_pos ⟨hplace, rfl⟩]
    · rw [if_neg hslash, if_neg]
      rintro ⟨hplace, hlast⟩
      obtain rfl : c = '/' := Option.some.inj hlast
      exact hslash ⟨Shelter.next_slash_eq_iff.mp hplace, rfl⟩

/-- The tokens before the open one, and the open one if there is one. -/
theorem mem_ended {token : String} (h : token ∈ ended finished cs.reverse) :
    token ∈ finished ∨ token = String.ofList cs := by
  rw [ended] at h
  split at h
  · exact Or.inl h
  · rw [List.reverse_reverse] at h
    exact (List.mem_cons.mp h).symm

/-- Whether pieces whose tokens are closed make up a text, and another text after it is the front
    of a token, or empty. -/
structure EndsInToken (pieces : List Piece) (front cs : List Char) : Prop where
  layout : IsClosedLayout pieces front
  unbroken : Unbroken cs
  starts : StartsToken front cs

/-- What a scan has made of a text: pieces, and after them an open token, or none; or a comment. -/
inductive Parts (text : List Char) : TokenScan → Prop where
  | token {pieces : List Piece} {front cs : List Char} :
      EndsInToken pieces front cs → text = front ++ cs →
      Parts text (opened (tokensOf pieces).reverse cs)
  | comment {pieces : List Piece} {front remark : List Char} :
      IsClosedLayout pieces front → text = front ++ '/' :: '/' :: remark → '\n' ∉ remark →
      Footing.after front = .on (.code 0) →
      Parts text ⟨(tokensOf pieces).reverse, [], 0, .comment⟩

/-- Whether a scan stands where the text before it says, and has made pieces of that text. -/
structure Follows (text : List Char) (s : TokenScan) : Prop where
  footing : Footing.after text = s.footing
  parts : s.Parts text

/-- The open token, if there is one, is the next piece. -/
theorem EndsInToken.exists_layout (h : EndsInToken pieces front cs) :
    ∃ more, IsLayout more (front ++ cs)
      ∧ (tokensOf more).reverse = ended (tokensOf pieces).reverse cs.reverse := by
  cases cs with
  | nil => exact ⟨pieces, (List.append_nil front).symm ▸ h.layout.layout, rfl⟩
  | cons c cs =>
      have hpiece : (Piece.token (c :: cs)).StandsAfter front :=
        ⟨List.cons_ne_nil _ _, h.unbroken, h.starts⟩
      refine ⟨_, h.layout.layout.snoc hpiece, ?_⟩
      rw [tokensOf_snoc, ended, if_neg (by simp), List.reverse_append, List.reverse_reverse]
      rfl

/-- A token that is ended leaves nothing open. -/
theorem EndsInToken.exists_closedLayout (h : EndsInToken pieces front cs)
    (hplace : Shelter.after cs = .code 0) :
    ∃ more, IsClosedLayout more (front ++ cs)
      ∧ (tokensOf more).reverse = ended (tokensOf pieces).reverse cs.reverse := by
  obtain ⟨more, hmore, htokens⟩ := h.exists_layout
  refine ⟨more, ⟨hmore, fun token hmem => ?_⟩, htokens⟩
  rw [← List.mem_reverse, htokens] at hmem
  rcases mem_ended hmem with hmem | rfl
  · exact h.layout.closed token (List.mem_reverse.mp hmem)
  · rw [String.toList_ofList, hplace]

/-- After a blank no token is open. -/
theorem follows_blank (h : IsClosedLayout pieces front) (hblank : isBlank c = true)
    (hplace : Footing.after (front ++ [c]) = .on (.code 0)) :
    Follows (front ++ [c]) ⟨(tokensOf pieces).reverse, [], 0, .code⟩ := by
  have hmore : IsClosedLayout (pieces ++ [.blank c]) (front ++ [c]) :=
    h.snoc rfl ⟨hblank, hplace⟩
  have hstart : StartsToken (front ++ [c]) [] := by
    refine ⟨Or.inl hplace, Or.inl fun d hd => ?_⟩
    rw [List.getLast?_concat] at hd
    exact Option.some.inj hd ▸ hblank
  refine ⟨hplace, ?_⟩
  rw [← tokensOf_snoc_of_none pieces (.blank c) rfl]
  exact .token ⟨hmore, unbroken_nil, hstart⟩ (List.append_nil _).symm

/-- A blank ends the open token. -/
theorem EndsInToken.follows_blank (h : EndsInToken pieces front cs)
    (hlevel : (Footing.after (front ++ cs)).IsLevel) (hplace : Shelter.after cs = .code 0)
    (hblank : isBlank c = true) :
    Follows (front ++ cs ++ [c]) ((opened (tokensOf pieces).reverse cs).step c) := by
  obtain ⟨more, hmore, htokens⟩ := h.exists_closedLayout hplace
  rw [step_opened_blank hplace hblank, ← htokens]
  refine TokenScan.follows_blank hmore hblank ?_
  rw [Footing.after_snoc, hlevel.next_blank hblank]

/-- So does the second one of two slashes, the first one of which then belongs to the comment. -/
theorem EndsInToken.follows_slash (h : EndsInToken pieces front (cs ++ ['/']))
    (hwaits : Footing.after (front ++ (cs ++ ['/'])) = .slash)
    (hplace : Shelter.after (cs ++ ['/']) = .code 0) :
    Follows (front ++ (cs ++ ['/']) ++ ['/'])
      ((opened (tokensOf pieces).reverse (cs ++ ['/'])).step '/') := by
  have hbefore : EndsInToken pieces front cs :=
    ⟨h.layout, (unbroken_snoc_iff.mp h.unbroken).1, h.starts.of_snoc (by decide)⟩
  obtain ⟨more, hmore, htokens⟩ := hbefore.exists_closedLayout <| by
    rw [Shelter.after_snoc] at hplace
    exact Shelter.next_slash_eq_iff.mp hplace
  rw [step_opened_slash hplace (List.getLast?_concat ..), List.dropLast_concat, ← htokens]
  refine ⟨?_, .comment hmore ?_ List.not_mem_nil ?_⟩
  · rw [Footing.after_snoc, hwaits]
    rfl
  · rw [List.append_assoc, List.append_assoc, List.append_assoc]
    rfl
  · rw [← List.append_assoc, Footing.after_snoc] at hwaits
    exact Footing.eq_of_next_eq_slash hwaits

/-- So does an at sign, which opens the next token. -/
theorem EndsInToken.follows_at (h : EndsInToken pieces front cs)
    (hlevel : (Footing.after (front ++ cs)).IsLevel) (hplace : Shelter.after cs = .code 0)
    {d : Char} (hlast : cs.getLast? = some d) (hd : d ≠ '@') :
    Follows (front ++ cs ++ ['@']) ((opened (tokensOf pieces).reverse cs).step '@') := by
  obtain ⟨more, hmore, htokens⟩ := h.exists_closedLayout hplace
  have hend : cs.getLast? ≠ some '@' := fun heq => hd (Option.some.inj (hlast.symm.trans heq))
  have hend' : (front ++ cs).getLast? ≠ some '@' := by
    rw [List.getLast?_append, hlast]
    exact fun heq => hd (Option.some.inj heq)
  have hstep : (opened (tokensOf pieces).reverse cs).step '@'
      = opened (tokensOf more).reverse ['@'] := by
    rw [step_opened_at hplace hend, htokens]
    rfl
  rw [hstep]
  refine ⟨?_, .token ⟨hmore, unbroken_at, hlevel, Or.inr ⟨rfl, hend'⟩⟩ rfl⟩
  rw [Footing.after_snoc]
  rcases hlevel with hplace | hplace <;> rw [hplace] <;> rfl

/-- A character of an open token leads on with it or ends it. -/
theorem EndsInToken.follows_step (h : EndsInToken pieces front cs)
    (hfooting : Footing.after (front ++ cs) = (opened (tokensOf pieces).reverse cs).footing)
    (c : Char) :
    Follows (front ++ cs ++ [c]) ((opened (tokensOf pieces).reverse cs).step c) := by
  by_cases hbreaks : Breaks cs c
  · obtain ⟨hplace, hcase⟩ := hbreaks
    have hlevel : (Footing.after (front ++ cs)).IsLevel :=
      hfooting ▸ isLevel_footing_opened.mpr hplace
    rcases hcase with hblank | ⟨rfl, hlast⟩ | ⟨rfl, d, hlast, hd⟩
    · exact h.follows_blank hlevel hplace hblank
    · rw [footing_opened, if_pos ⟨hplace, hlast⟩] at hfooting
      obtain ⟨before, rfl⟩ := List.getLast?_eq_some_iff.mp hlast
      exact h.follows_slash hfooting hplace
    · exact h.follows_at hlevel hplace hlast hd
  · rw [step_opened_unbroken hbreaks]
    have hmore : EndsInToken pieces front (cs ++ [c]) :=
      ⟨h.layout, unbroken_snoc_iff.mpr ⟨h.unbroken, hbreaks⟩, h.starts.snoc c⟩
    refine ⟨?_, .token hmore (List.append_assoc ..)⟩
    rw [Footing.after_snoc, hfooting, footing_opened_snoc hbreaks]

/-- A character of a comment is passed over. -/
theorem follows_step_comment {remark : List Char} (h : IsClosedLayout pieces front)
    (hremark : '\n' ∉ remark) (hplace : Footing.after front = .on (.code 0))
    (hfooting : Footing.after (front ++ '/' :: '/' :: remark) = .comment) (c : Char) :
    Follows (front ++ '/' :: '/' :: remark ++ [c])
      (step ⟨(tokensOf pieces).reverse, [], 0, .comment⟩ c) := by
  have hnext : Footing.after (front ++ '/' :: '/' :: remark ++ [c]) = Footing.comment.next c := by
    rw [Footing.after_snoc, hfooting]
  by_cases hc : c = '\n'
  · -- the end of the line is a piece of its own
    subst hc
    have hmore : IsClosedLayout (pieces ++ [.comment remark]) (front ++ '/' :: '/' :: remark) :=
      h.snoc rfl ⟨hremark, hplace⟩
    rw [← tokensOf_snoc_of_none pieces (.comment remark) rfl]
    exact follows_blank hmore (by decide) hnext
  · have hstep : step ⟨(tokensOf pieces).reverse, [], 0, .comment⟩ c
        = ⟨(tokensOf pieces).reverse, [], 0, .comment⟩ := by
      show TokenScan.mk _ _ _ (Zone.comment.next c) = _
      rw [Zone.next, if_neg hc]
    rw [hstep]
    have htext : front ++ '/' :: '/' :: remark ++ [c] = front ++ '/' :: '/' :: (remark ++ [c]) :=
      List.append_assoc ..
    have hmore : '\n' ∉ remark ++ [c] := by simp [hremark, Ne.symm hc]
    refine ⟨?_, .comment h htext hmore hplace⟩
    rw [hnext, Footing.next, if_neg hc]
    rfl

theorem Follows.step (h : s.Follows text) (c : Char) : (s.step c).Follows (text ++ [c]) := by
  obtain ⟨hfooting, hparts⟩ := h
  cases hparts with
  | token hends htext =>
      subst htext
      exact hends.follows_step hfooting c
  | comment hlayout htext hremark hplace =>
      subst htext
      exact follows_step_comment hlayout hremark hplace hfooting c

theorem follows_start : Follows [] start where
  footing := rfl
  parts := by
    have hnone : IsClosedLayout [] [] := ⟨⟨rfl, trivial⟩, fun _ h => nomatch h⟩
    exact .token ⟨hnone, unbroken_nil, Or.inl rfl, Or.inl fun _ h => nomatch h⟩ rfl

theorem Follows.run (h : s.Follows front) (text : List Char) :
    (s.run text).Follows (front ++ text) := by
  induction text generalizing front s with
  | nil => rwa [run_nil, List.append_nil]
  | cons c text ih =>
      have hcut : front ++ c :: text = front ++ [c] ++ text := by rw [List.append_assoc]; rfl
      rw [run_cons, hcut]
      exact ih (h.step c)

/-- What is read of a text is the tokens of a row of pieces, the open one included; and only that
    one may leave something open. -/
theorem Follows.exists_pieces (h : s.Follows text) :
    ∃ pieces, IsLayout pieces text ∧ tokensOf pieces = s.result
      ∧ ∀ token ∈ s.result.dropLast, Shelter.after token.toList = .code 0 := by
  obtain ⟨-, hparts⟩ := h
  cases hparts with
  | @token pieces front cs hends htext =>
      subst htext
      obtain ⟨more, hmore, htokens⟩ := hends.exists_layout
      rw [result_opened]
      refine ⟨more, hmore, by rw [← htokens, List.reverse_reverse], fun token hmem => ?_⟩
      -- all but the open token have been ended, and were closed then
      refine hends.layout.closed token ?_
      rw [ended] at hmem
      split at hmem
      · rw [List.reverse_reverse] at hmem
        exact List.dropLast_subset _ hmem
      · rwa [List.reverse_cons, List.dropLast_concat, List.reverse_reverse] at hmem
  | @comment pieces front remark hlayout htext hremark hplace =>
      subst htext
      rw [result_comment, List.reverse_reverse]
      have hmore : IsLayout (pieces ++ [.comment remark]) (front ++ '/' :: '/' :: remark) :=
        hlayout.layout.snoc ⟨hremark, hplace⟩
      refine ⟨_, hmore, tokensOf_snoc_of_none pieces (.comment remark) rfl, ?_⟩
      exact fun token hmem => hlayout.closed token (List.dropLast_subset _ hmem)

end TokenScan

/-! ## Tokens -/

theorem StandAfter.of_mem (h : StandAfter front pieces) (hmem : piece ∈ pieces) :
    ∃ front, piece.StandsAfter front := by
  induction pieces generalizing front with
  | nil => cases hmem
  | cons first pieces ih =>
      rcases List.mem_cons.mp hmem with rfl | hmem
      · exact ⟨front, h.1⟩
      · exact ih h.2 hmem

theorem IsLayout.of_mem_tokensOf (h : IsLayout pieces text) {token : String}
    (hmem : token ∈ tokensOf pieces) : token ≠ "" ∧ Unbroken token.toList := by
  obtain ⟨piece, hpiece, htoken⟩ := List.mem_filterMap.mp hmem
  obtain ⟨front, hstands⟩ := h.stand.of_mem hpiece
  cases piece with
  | blank c => cases htoken
  | comment remark => cases htoken
  | token cs =>
      obtain rfl : String.ofList cs = token := Option.some.inj htoken
      obtain ⟨hne, hunbroken, -⟩ := hstands
      rw [String.toList_ofList]
      exact ⟨fun heq => hne (String.ofList_injective heq), hunbroken⟩

/-- Tokens are not empty, and none of their characters breaks them. -/
theorem of_mem_tokens {body token : String} (h : token ∈ tokens body) :
    token ≠ "" ∧ Unbroken token.toList := by
  obtain ⟨pieces, hlayout, htokens, -⟩ :=
    (TokenScan.follows_start.run body.toList).exists_pieces
  exact hlayout.of_mem_tokensOf (htokens ▸ h)

/-- No token is empty. -/
theorem ne_empty_of_mem_tokens {body token : String} (h : token ∈ tokens body) : token ≠ "" :=
  (of_mem_tokens h).1

/-- The blanks of a token are sheltered. -/
theorem blanksSheltered_of_mem_tokens {body token : String} (h : token ∈ tokens body) :
    BlanksSheltered token.toList :=
  (of_mem_tokens h).2.blanksSheltered

/-- The tokens of a body stand in it in order, each where it should start, and what stands between
    them is blanks and comments outside of brackets and literals.  No token is empty or broken by
    one of its characters, and only the last one may leave something open. -/
theorem tokens_in_pieces (body : String) :
    (∃ pieces, IsLayout pieces body.toList ∧ tokensOf pieces = tokens body)
      ∧ (∀ token ∈ tokens body, token ≠ "" ∧ Unbroken token.toList)
      ∧ ∀ token ∈ (tokens body).dropLast, Shelter.after token.toList = .code 0 := by
  obtain ⟨pieces, hlayout, htokens, hclosed⟩ :=
    (TokenScan.follows_start.run body.toList).exists_pieces
  exact ⟨⟨pieces, hlayout, htokens⟩, fun token => of_mem_tokens, hclosed⟩

/-- A bracket too many, attributes glued to what stands before them, and at the end a token that
    leaves open a literal and two brackets. -/
theorem tokens_in_pieces_unclosed :
    tokens "a)b Int@id // key\n@@map([\"x)" = ["a)b", "Int", "@id", "@@map([\"x)"]
      ∧ Unbroken "@@map([\"x)".toList ∧ Shelter.after "a)b".toList = .code 0 := by
  have htokens : tokens "a)b Int@id // key\n@@map([\"x)"
      = ["a)b", "Int", "@id", "@@map([\"x)"] := by decide
  obtain ⟨-, hunbroken, hclosed⟩ := tokens_in_pieces "a)b Int@id // key\n@@map([\"x)"
  rw [htokens] at hunbroken hclosed
  exact ⟨htokens, (hunbroken _ (by decide)).2, hclosed _ (by decide)⟩

end Stencil.Schema
