import Stencil.Proofs.Template.Occurrences

/-! # Filling by searching for braces

    Another way to fill a template: search for the next two opening braces, then
    for the next two closing ones, and look up what stands between them; if that is
    no key, give up a single brace and search on.  It passes over whole stretches
    of text at a time and looks at one candidate only, yet fills in the same slots
    (`searchFill_eq`). -/

namespace Stencil

/-! ## Two characters in a row -/

/-- What stands before and after the first place where a character is repeated. -/
def cutAtPair (x : Char) : List Char → Option (List Char × List Char)
  | y :: z :: rest =>
      if y = x ∧ z = x then some ([], rest)
      else (cutAtPair x (z :: rest)).map fun halves => (y :: halves.1, halves.2)
  | _ => none

variable {x : Char} {front after text key : List Char}

/-- The cut is at a pair, and there is none before it. -/
theorem of_cutAtPair (h : cutAtPair x text = some (front, after)) :
    text = front ++ [x, x] ++ after ∧ ¬ [x, x] <:+: front ++ [x] := by
  fun_induction cutAtPair x text generalizing front with
  | case1 y z rest hpair =>
      obtain ⟨rfl, rfl⟩ := hpair
      cases h
      refine ⟨rfl, fun hin => ?_⟩
      exact absurd hin.length_le (by simp)
  | case2 y z rest hpair ih =>
      obtain ⟨halves, hhalves, hcut⟩ := Option.map_eq_some_iff.mp h
      obtain ⟨rfl, rfl⟩ := Prod.mk.inj hcut
      obtain ⟨htext, hnone⟩ := ih hhalves
      refine ⟨by rw [htext]; rfl, fun hin => ?_⟩
      rw [List.cons_append] at hin
      rcases List.infix_cons_iff.mp hin with hfirst | hrest
      · -- the pair would be the first two characters
        have hhead : [x, x] <+: y :: z :: rest := by
          rw [htext]
          refine hfirst.trans ⟨x :: halves.2, ?_⟩
          simp
        have hboth := List.cons_prefix_cons.mp hhead
        exact hpair ⟨hboth.1.symm, (List.cons_prefix_cons.mp hboth.2).1.symm⟩
      · exact hnone hrest
  | case3 => cases h

/-- Without a cut there is no pair. -/
theorem of_cutAtPair_eq_none (h : cutAtPair x text = none) : ¬ [x, x] <:+: text := by
  fun_induction cutAtPair x text with
  | case1 y z rest hpair => cases h
  | case2 y z rest hpair ih =>
      intro hin
      rcases List.infix_cons_iff.mp hin with hfirst | hrest
      · have hboth := List.cons_prefix_cons.mp hfirst
        exact hpair ⟨hboth.1.symm, (List.cons_prefix_cons.mp hboth.2).1.symm⟩
      · exact ih (Option.map_eq_none_iff.mp h) hrest
  | case3 rest hshort =>
      rintro ⟨left, right, rfl⟩
      cases left with
      | nil => exact hshort x x right rfl
      | cons y left =>
          cases left with
          | nil => exact hshort y x (x :: right) rfl
          | cons z left => exact hshort y z _ rfl

/-- A text is cut right after what does not have the character. -/
theorem cutAtPair_append (h : x ∉ key) (rest : List Char) :
    cutAtPair x (key ++ x :: x :: rest) = some (key, rest) := by
  induction key with
  | nil => exact if_pos ⟨rfl, rfl⟩
  | cons y key ih =>
      rw [List.mem_cons, not_or] at h
      obtain ⟨hy, hkey⟩ := h
      cases key with
      | nil =>
          have hrest : cutAtPair x (x :: x :: rest) = some ([], rest) := if_pos ⟨rfl, rfl⟩
          show (if y = x ∧ x = x then _ else _) = _
          rw [if_neg fun hpair => hy hpair.1.symm, hrest]
          rfl
      | cons z key =>
          show (if y = x ∧ z = x then _ else _) = _
          rw [if_neg fun hpair => hy hpair.1.symm]
          show Option.map _ (cutAtPair x (z :: key ++ x :: x :: rest)) = _
          rw [ih hkey]
          rfl

theorem length_of_cutAtPair (h : cutAtPair x text = some (front, after)) :
    after.length + 2 ≤ text.length := by
  rw [(of_cutAtPair h).1]
  simp only [List.length_append, List.length_cons, List.length_nil]
  omega

/-! ## The search -/

/-- The slot whose key stands before the next two closing braces, and what comes after
    them. -/
def keyAhead? (text : List Char) : Option (Slot × List Char) :=
  match cutAtPair '}' text with
  | some (key, rest) => (Slot.ofKey? (String.ofList key)).map fun slot => (slot, rest)
  | none => none

/-- The slot found is written there. -/
theorem of_keyAhead? {slot : Slot} {rest : List Char} (h : keyAhead? text = some (slot, rest)) :
    ['{', '{'] ++ text = slot.written ++ rest := by
  rw [keyAhead?] at h
  cases hcut : cutAtPair '}' text with
  | none =>
      rw [hcut] at h
      cases h
  | some halves =>
      obtain ⟨key, back⟩ := halves
      rw [hcut] at h
      obtain ⟨found, hfound, hpair⟩ := Option.map_eq_some_iff.mp h
      obtain ⟨rfl, rfl⟩ := Prod.mk.inj hpair
      rw [Slot.written_of_ofKey? hfound, (of_cutAtPair hcut).1, token]
      simp only [List.append_assoc]

/-- A slot written there is found. -/
theorem keyAhead?_written (slot : Slot) (rest : List Char) :
    keyAhead? (slot.key.toList ++ ['}', '}'] ++ rest) = some (slot, rest) := by
  have hcut := cutAtPair_append slot.braceless.2 rest
  rw [List.append_assoc, keyAhead?]
  show (match cutAtPair '}' (slot.key.toList ++ '}' :: '}' :: rest) with
    | some (key, rest) => (Slot.ofKey? (String.ofList key)).map fun slot => (slot, rest)
    | none => none) = _
  rw [hcut]
  simp only [String.ofList_toList, Slot.ofKey?_key, Option.map_some]

theorem length_of_keyAhead? {slot : Slot} {rest : List Char}
    (h : keyAhead? text = some (slot, rest)) : rest.length ≤ text.length := by
  have hlength := congrArg List.length (of_keyAhead? h)
  simp only [Slot.written, List.length_append, List.length_cons, List.length_nil] at hlength
  omega

/-- A template filled in by searching for braces. -/
def searchFill (filling : Slot → List Char) (text : List Char) : List Char :=
  match hopen : cutAtPair '{' text with
  | none => text
  | some (front, after) =>
      have := length_of_cutAtPair hopen
      match hkey : keyAhead? after with
      | some (slot, rest) =>
          have := length_of_keyAhead? hkey
          front ++ filling slot ++ searchFill filling rest
      | none => front ++ '{' :: searchFill filling ('{' :: after)
termination_by text.length
decreasing_by
  · omega
  · rw [List.length_cons]
    omega

/-! ## The same slots -/

/-- A template filled in piece by piece. -/
def pieceFill (filling : Slot → List Char) (text : List Char) : List Char :=
  (Piece.split text).flatMap fun
    | .literal c => [c]
    | .slot which => filling which

variable {filling : Slot → List Char}

theorem pieceFill_append {front back : List Char} (h : CleanCut front back) :
    pieceFill filling (front ++ back) = pieceFill filling front ++ pieceFill filling back := by
  rw [pieceFill, Piece.split_append h, List.flatMap_append]
  rfl

theorem pieceFill_of_slotless (h : Slotless text) : pieceFill filling text = text := by
  rw [pieceFill, Piece.split_of_slotless h, List.flatMap_map]
  exact List.flatMap_singleton' text

theorem pieceFill_written (slot : Slot) : pieceFill filling slot.written = filling slot := by
  have hsplit := Piece.split_written slot []
  rw [List.append_nil, Piece.split] at hsplit
  rw [pieceFill, hsplit, List.flatMap_singleton]

/-- A slot is filled in and what stands around it does not matter. -/
theorem pieceFill_amid (slot : Slot) (front back : List Char) :
    pieceFill filling (front ++ slot.written ++ back)
      = pieceFill filling front ++ filling slot ++ pieceFill filling back := by
  rw [List.append_assoc, Slot.written_eq_token, pieceFill_append (cleanCut_before slot.braceless),
    pieceFill_append (cleanCut_after slot.braceless), ← Slot.written_eq_token,
    pieceFill_written, List.append_assoc]

/-- Before the first two opening braces no slot is written. -/
theorem slotless_of_cutAtPair (h : cutAtPair '{' text = some (front, after)) :
    Slotless (front ++ ['{']) ∧ Slotless front := by
  have hnone := (of_cutAtPair h).2
  have hfront : front <:+: front ++ ['{'] := (List.prefix_append front ['{']).isInfix
  exact ⟨slotless_of_braces hnone, slotless_of_braces fun hin => hnone (hin.trans hfront)⟩

/-- If no key follows the first two opening braces, the first brace can be cut off. -/
theorem cleanCut_of_keyAhead? (h : cutAtPair '{' text = some (front, after))
    (hkey : keyAhead? after = none) : CleanCut (front ++ ['{']) ('{' :: after) := by
  obtain ⟨-, hnone⟩ := of_cutAtPair h
  intro slot before back heq
  have hwhole : (front ++ ['{']) ++ '{' :: after = before ++ (slot.written ++ back) := by
    rw [heq, List.append_assoc]
  rcases List.append_eq_append_iff.mp hwhole with ⟨c, hbefore, -⟩ | ⟨c, hfront, hrest⟩
  · exact Or.inr ⟨c, hbefore.symm⟩
  · -- the slot starts in front of the cut: at the very pair, or its own braces are one
    cases c with
    | nil =>
        rw [List.append_nil] at hfront
        exact Or.inr ⟨[], by rw [List.append_nil, hfront]⟩
    | cons y c =>
        have hy : y = '{' := (List.cons.inj hrest).1.symm
        have htail : ('{' :: (slot.key.toList ++ ['}', '}'])) ++ back = c ++ '{' :: after :=
          (List.cons.inj hrest).2
        cases c with
        | nil =>
            have hafter : slot.key.toList ++ ['}', '}'] ++ back = after :=
              (List.cons.inj htail).2
            rw [← hafter, keyAhead?_written] at hkey
            cases hkey
        | cons z c =>
            have hz : z = '{' := (List.cons.inj htail).1.symm
            refine absurd ?_ hnone
            rw [hfront, hy, hz]
            exact ⟨before, c, by simp⟩

/-- Searching for braces fills in every slot and nothing else. -/
theorem searchFill_eq (filling : Slot → List Char) (text : List Char) :
    searchFill filling text = pieceFill filling text := by
  fun_induction searchFill filling text with
  | case1 text hopen =>
      exact (pieceFill_of_slotless (slotless_of_braces (of_cutAtPair_eq_none hopen))).symm
  | case2 text front after hopen _ slot rest hkey _ ih =>
      have htext : text = front ++ slot.written ++ rest := by
        rw [(of_cutAtPair hopen).1, List.append_assoc, of_keyAhead? hkey, List.append_assoc]
      rw [htext, pieceFill_amid, pieceFill_of_slotless (slotless_of_cutAtPair hopen).2, ih]
  | case3 text front after hopen _ hkey ih =>
      have htext : text = (front ++ ['{']) ++ '{' :: after := by
        rw [(of_cutAtPair hopen).1]
        simp
      rw [htext, pieceFill_append (cleanCut_of_keyAhead? hopen hkey),
        pieceFill_of_slotless (slotless_of_cutAtPair hopen).1, ih]
      simp

end Stencil
