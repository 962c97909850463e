import Stencil.Proofs.Schema.Sheltered
import Stencil.Proofs.Schema.TokenPassage

/-! # Unbroken texts

    An open token goes on until a character breaks it, and only where it has left nothing
    open (`Breaks`).  A text that no character of it breaks is read as one token, whatever
    it leaves open at its end (`run_unbroken`).

    A slash at its end waits where nothing is open: it may turn out to be the first one of
    a comment.  So what a scan comes to on such a text is told by the text (`opened`), and
    so is what a character does that breaks it. -/

namespace Stencil.Schema

open Stencil.Text (isBlank)

variable {cs front : List Char} {c : Char}

/-- Whether a character ends the token that a text before it has opened: nothing is open there,
    and the character is a blank, the second one of two slashes, or an at sign that neither opens
    the token nor follows another at sign. -/
def Breaks (front : List Char) (c : Char) : Prop :=
  Shelter.after front = .code 0 ∧
    (isBlank c = true ∨ c = '/' ∧ front.getLast? = some '/'
      ∨ c = '@' ∧ ∃ d ∈ front.getLast?, d ≠ '@')

/-- Whether a text is not broken by any of its characters. -/
def Unbroken (cs : List Char) : Prop :=
  ∀ (front : List Char) (c : Char) (back : List Char), cs = front ++ c :: back → ¬ Breaks front c

theorem unbroken_nil : Unbroken [] := by
  intro front c back hcut
  exact absurd hcut.symm (List.append_ne_nil_of_right_ne_nil front (List.cons_ne_nil c back))

theorem unbroken_snoc_iff : Unbroken (cs ++ [c]) ↔ Unbroken cs ∧ ¬ Breaks cs c := by
  constructor
  · intro h
    refine ⟨fun front d back hcut => h front d (back ++ [c]) ?_, h cs c [] rfl⟩
    rw [hcut, List.append_assoc, List.cons_append]
  · rintro ⟨h, hc⟩ front d back hcut
    rcases List.eq_nil_or_concat back with rfl | ⟨back, e, rfl⟩
    · obtain ⟨rfl, hlast⟩ := List.append_inj' hcut rfl
      exact List.head_eq_of_cons_eq hlast ▸ hc
    · rw [List.concat_eq_append, ← List.cons_append, ← List.append_assoc] at hcut
      exact h front d back (List.append_inj' hcut rfl).1

/-- An at sign breaks no token that it opens. -/
theorem unbroken_at : Unbroken ['@'] := by
  show Unbroken ([] ++ ['@'])
  refine unbroken_snoc_iff.mpr ⟨unbroken_nil, ?_⟩
  rintro ⟨-, hblank | ⟨hslash, -⟩ | ⟨-, d, hmem, -⟩⟩
  · exact absurd hblank (by decide)
  · exact absurd hslash (by decide)
  · cases hmem

/-- The blanks of an unbroken text are sheltered. -/
theorem Unbroken.blanksSheltered (h : Unbroken cs) : BlanksSheltered cs :=
  fun front c back hcut hblank hopen => h front c back hcut ⟨hopen, Or.inl hblank⟩

/-! ## Shelter at the end of a text -/

namespace Shelter

/-- The zone of a scan in such a place. -/
def zone : Shelter → Zone
  | .code _ => .code
  | .literal _ => .literal
  | .escape _ => .escape

/-- The number of open brackets. -/
def depth : Shelter → Nat
  | .code depth | .literal depth | .escape depth => depth

/-- Slashes leave open what is open. -/
theorem next_slash_eq_iff {place : Shelter} : place.next '/' = .code 0 ↔ place = .code 0 := by
  cases place with
  | code depth => exact Iff.rfl
  | literal depth => exact iff_of_false (fun h => nomatch h) (fun h => nomatch h)
  | escape depth => exact iff_of_false (fun h => nomatch h) (fun h => nomatch h)

/-- A mark of the syntax is no blank. -/
theorem ne_of_isBlank (h : isBlank c = true) : c ≠ '"' ∧ c ≠ '\\' ∧ c ≠ '/' ∧ c ≠ '@'
    ∧ TokenScan.isOpening c = false ∧ TokenScan.isClosing c = false := by
  simp only [isBlank, Bool.or_eq_true, decide_eq_true_eq] at h
  rcases h with (((rfl | rfl) | rfl) | rfl) | rfl <;> decide

/-- So do blanks. -/
theorem next_blank_eq_iff {place : Shelter} (h : isBlank c = true) :
    place.next c = .code 0 ↔ place = .code 0 := by
  obtain ⟨hquote, hescape, -, -, hopening, hclosing⟩ := ne_of_isBlank h
  cases place with
  | code depth => simp [next, hquote, hopening, hclosing]
  | literal depth => simp [next, hquote, hescape]
  | escape depth => simp [next]

end Shelter

/-! ## Scans -/

namespace TokenScan

variable {finished : List String} {pending : List Char} {depth : Nat}

/-- The scan that has read a text as its open token. -/
def opened (finished : List String) (cs : List Char) : TokenScan :=
  if Shelter.after cs = .code 0 ∧ cs.getLast? = some '/' then
    ⟨finished, cs.dropLast.reverse, 0, .slash⟩
  else ⟨finished, cs.reverse, (Shelter.after cs).depth, (Shelter.after cs).zone⟩

theorem step_opened (hc : c ≠ '/') : (opened finished cs).step c
    = step ⟨finished, cs.reverse, (Shelter.after cs).depth, (Shelter.after cs).zone⟩ c := by
  rw [opened]
  split
  case isTrue hwaits =>
    obtain ⟨hplace, hlast⟩ := hwaits
    obtain ⟨front, rfl⟩ := List.getLast?_eq_some_iff.mp hlast
    rw [step_waiting hc, hplace, List.dropLast_concat, List.reverse_append]
    rfl
  case isFalse => rfl

/-- Where a slash does not wait, an open token has all that was read of it. -/
theorem opened_snoc (h : c = '/' → Shelter.after cs ≠ .code 0) : opened finished (cs ++ [c])
    = ⟨finished, c :: cs.reverse, ((Shelter.after cs).next c).depth,
      ((Shelter.after cs).next c).zone⟩ := by
  rw [opened, Shelter.after_snoc, List.getLast?_concat, List.reverse_append, if_neg]
  · rfl
  · rintro ⟨hplace, hlast⟩
    obtain rfl : c = '/' := Option.some.inj hlast
    exact h rfl (Shelter.next_slash_eq_iff.mp hplace)

/-- A character of code that does not break the open token is added to it. -/
theorem step_unbroken (hplace : Shelter.after cs = .code depth) (hc : c = '/' → 0 < depth)
    (h : ¬ Breaks cs c) : step ⟨finished, cs.reverse, depth, .code⟩ c
      = ⟨finished, c :: cs.reverse, ((Shelter.code depth).next c).depth,
        ((Shelter.code depth).next c).zone⟩ := by
  rw [Shelter.next]
  by_cases hquote : c = '"'
  · rw [if_pos hquote, hquote, step_code fun h => absurd h (by decide)]
    rfl
  rw [if_neg hquote]
  by_cases hopening : isOpening c = true
  · rw [if_pos hopening]
    exact step_isOpening hopening
  rw [if_neg hopening]
  by_cases hclosing : isClosing c = true
  · rw [if_pos hclosing]
    exact step_isClosing hclosing
  rw [if_neg hclosing]
  by_cases hat : c = '@' ∧ depth = 0
  · obtain ⟨rfl, rfl⟩ := hat
    -- the sign opens the token, or follows another one
    have hlast : ¬ ∃ d ∈ cs.getLast?, d ≠ '@' := fun hlast =>
      h ⟨hplace, Or.inr (Or.inr ⟨rfl, hlast⟩)⟩
    rcases List.eq_nil_or_concat cs with rfl | ⟨front, d, rfl⟩
    · rfl
    · rw [List.concat_eq_append] at hlast ⊢
      have hd : d = '@' := Classical.byContradiction fun hne =>
        hlast ⟨d, List.getLast?_concat .., hne⟩
      rw [hd, List.reverse_append]
      exact step_at_at rfl
  · rw [step_code hc]
    refine code_push hquote (fun heq => ?_) (Bool.eq_false_iff.mpr hopening)
      (Bool.eq_false_iff.mpr hclosing) fun hblank => ?_
    · exact Nat.pos_of_ne_zero fun hzero => hat ⟨heq, hzero⟩
    · exact Nat.pos_of_ne_zero fun hzero => h ⟨hzero ▸ hplace, Or.inl hblank⟩

/-- A character that does not break the open token is added to it. -/
theorem step_opened_unbroken (h : ¬ Breaks cs c) :
    (opened finished cs).step c = opened finished (cs ++ [c]) := by
  by_cases hslash : c = '/' ∧ Shelter.after cs = .code 0
  · obtain ⟨rfl, hplace⟩ := hslash
    have hlast : ¬ (Shelter.after cs = .code 0 ∧ cs.getLast? = some '/') := fun hwaits =>
      h ⟨hplace, Or.inr (Or.inl ⟨rfl, hwaits.2⟩)⟩
    rw [opened, if_neg hlast, opened, Shelter.after_snoc, hplace, List.getLast?_concat,
      if_pos ⟨rfl, rfl⟩, List.dropLast_concat]
    rfl
  · have hopen : c = '/' → Shelter.after cs ≠ .code 0 := fun hc hplace => hslash ⟨hc, hplace⟩
    have hstep : (opened finished cs).step c
        = step ⟨finished, cs.reverse, (Shelter.after cs).depth, (Shelter.after cs).zone⟩ c := by
      by_cases hc : c = '/'
      · rw [opened, if_neg fun hwaits => hopen hc hwaits.1]
      · exact step_opened hc
    rw [hstep, opened_snoc hopen]
    cases hplace : Shelter.after cs with
    | code depth =>
        refine step_unbroken hplace (fun hc => ?_) h
        exact Nat.pos_of_ne_zero fun hzero => hopen hc (hzero ▸ hplace)
    | literal depth =>
        show TokenScan.mk _ _ _ (Zone.literal.next c) = _
        rw [Zone.next, Shelter.next]
        split
        · rfl
        split
        · rfl
        · rfl
    | escape depth => rfl

/-- Characters that do not break the open token are added to it one by one. -/
theorem run_opened (cs : List Char) (h : Unbroken (front ++ cs)) :
    (opened finished front).run cs = opened finished (front ++ cs) := by
  induction cs generalizing front with
  | nil => rw [run_nil, List.append_nil]
  | cons c cs ih =>
      have hcut : front ++ c :: cs = front ++ [c] ++ cs := by rw [List.append_assoc]; rfl
      rw [run_cons, step_opened_unbroken (h front c cs rfl), hcut]
      exact ih (hcut ▸ h)

/-- An unbroken text is read as one token. -/
theorem run_unbroken (h : Unbroken cs) : run ⟨finished, [], 0, .code⟩ cs = opened finished cs := by
  show (opened finished []).run cs = opened finished ([] ++ cs)
  exact run_opened cs h

/-- At the end of the body the open token is one of the tokens, a slash that waited included. -/
theorem result_opened : (opened finished cs).result = (ended finished cs.reverse).reverse := by
  rw [opened]
  split
  case isTrue hwaits =>
    obtain ⟨front, rfl⟩ := List.getLast?_eq_some_iff.mp hwaits.2
    rw [List.dropLast_concat, List.reverse_append]
    show (TokenScan.close ⟨finished, '/' :: front.reverse, 0, .slash⟩).finished.reverse = _
    rw [close_eq]
    rfl
  case isFalse =>
    have hzone : (Shelter.after cs).zone ≠ .slash := by
      cases Shelter.after cs <;> exact fun h => nomatch h
    rw [result]
    show (TokenScan.close (if (Shelter.after cs).zone = .slash then _ else _)).finished.reverse = _
    rw [if_neg hzone, close_eq]

/-! ## Broken tokens -/

/-- A blank ends the open token where that leaves nothing open. -/
theorem step_opened_blank (hplace : Shelter.after cs = .code 0) (h : isBlank c = true) :
    (opened finished cs).step c = ⟨ended finished cs.reverse, [], 0, .code⟩ := by
  rw [step_opened (Shelter.ne_of_isBlank h).2.2.1, hplace]
  show step ⟨finished, cs.reverse, 0, .code⟩ c = _
  rw [step_blank h, close_eq]

/-- So does an at sign, if the token does not end in another one. -/
theorem step_opened_at (hplace : Shelter.after cs = .code 0) (h : cs.getLast? ≠ some '@') :
    (opened finished cs).step '@' = ⟨ended finished cs.reverse, ['@'], 0, .code⟩ := by
  rw [step_opened (by decide), hplace]
  exact step_at (List.head?_reverse ▸ h)

/-- So do two slashes, which open a comment. -/
theorem step_opened_slash (hplace : Shelter.after cs = .code 0) (h : cs.getLast? = some '/') :
    (opened finished cs).step '/' = ⟨ended finished cs.dropLast.reverse, [], 0, .comment⟩ := by
  rw [opened, if_pos ⟨hplace, h⟩]
  show { (⟨finished, cs.dropLast.reverse, 0, .slash⟩ : TokenScan).close with zone := .comment } = _
  rw [close_eq]

end TokenScan

end Stencil.Schema
