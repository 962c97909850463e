import Mathlib.Data.List.Infix
import Stencil.Proofs.Template.Filled

/-! # Where slots stand

    A slot is written as a token, a key between double braces.  Tokens whose keys
    have no braces never overlap (`token_apart`), whatever stands around them, so a
    template can be cut at every place that is not inside a written slot: the two
    halves are split into pieces on their own (`Piece.split_append`). -/

namespace Stencil

/-! ## Tokens -/

/-- A key between double braces. -/
def token (key : List Char) : List Char :=
  ['{', '{'] ++ key ++ ['}', '}']

/-- Whether a key has no braces in it. -/
def Braceless (key : List Char) : Prop :=
  '{' ∉ key ∧ '}' ∉ key

instance (key : List Char) : Decidable (Braceless key) :=
  inferInstanceAs (Decidable (_ ∧ _))

theorem Slot.written_eq_token (slot : Slot) : slot.written = token slot.key.toList := rfl

theorem Slot.braceless (slot : Slot) : Braceless slot.key.toList := by
  cases slot <;> decide

theorem Slot.eq_of_key_eq {slot other : Slot} (h : slot.key = other.key) : slot = other := by
  cases slot <;> cases other <;> first | rfl | exact absurd h (by decide)

theorem Slot.ofKey?_key (slot : Slot) : Slot.ofKey? slot.key = some slot := by
  cases slot <;> decide

/-- The slot with a key has that key. -/
theorem Slot.key_of_ofKey? {key : String} {slot : Slot} (h : Slot.ofKey? key = some slot) :
    slot.key = key := by
  have hfound := List.find?_some h
  exact of_decide_eq_true hfound

theorem Slot.written_of_ofKey? {key : List Char} {slot : Slot}
    (h : Slot.ofKey? (String.ofList key) = some slot) : slot.written = token key := by
  rw [Slot.written_eq_token, Slot.key_of_ofKey? h, String.toList_ofList]

variable {key key' a a' b c d before after before' after' : List Char}

/-- After its opening braces a token has no further one. -/
theorem Braceless.not_mem_closing (h : Braceless key) : '{' ∉ key ++ ['}', '}'] := by
  rw [List.mem_append, not_or]
  exact ⟨h.1, by decide⟩

/-- The key of a token ends where the first closing brace stands. -/
theorem Braceless.takeWhile (h : Braceless key) (a : List Char) :
    (key ++ '}' :: a).takeWhile (· ≠ '}') = key := by
  have hall : ∀ x ∈ key, decide (x ≠ '}') = true :=
    fun x hx => decide_eq_true fun hbrace => h.2 (hbrace ▸ hx)
  rw [List.takeWhile_append_of_pos hall, List.takeWhile_cons_of_neg (by decide),
    List.append_nil]

/-- Where one token starts, no other one does. -/
theorem Braceless.eq_of_token_append (h : Braceless key) (h' : Braceless key')
    (heq : token key ++ a = token key' ++ a') : key = key' := by
  have hcut : key ++ '}' :: '}' :: a = key' ++ '}' :: '}' :: a' := by
    simpa [token] using heq
  rw [← h.takeWhile ('}' :: a), hcut, h'.takeWhile]

/-- No token starts inside another one. -/
theorem Braceless.not_inside (h : Braceless key) (hcut : token key = c ++ d) (hd : d ≠ [])
    (heq : d ++ a = token key' ++ a') : c = [] := by
  have hclosing := h.not_mem_closing
  cases c with
  | nil => rfl
  | cons brace c =>
      have hrest : '{' :: (key ++ ['}', '}']) = c ++ d := (List.cons.inj hcut).2
      cases c with
      | nil =>
          -- the second brace would have to be followed by a third one
          rw [List.nil_append] at hrest
          rw [← hrest] at heq
          have hthird : (key ++ ['}', '}']) ++ a = '{' :: (key' ++ ['}', '}'] ++ a') :=
            (List.cons.inj heq).2
          cases hkey : key ++ ['}', '}'] with
          | nil => exact absurd hkey (List.append_ne_nil_of_right_ne_nil _ (List.cons_ne_nil _ _))
          | cons first closing =>
              rw [hkey] at hthird
              have hfirst : first = '{' := (List.cons.inj hthird).1
              rw [hkey, hfirst] at hclosing
              exact absurd (List.mem_cons_self ..) hclosing
      | cons brace' c =>
          have hlast : key ++ ['}', '}'] = c ++ d := (List.cons.inj hrest).2
          cases d with
          | nil => exact absurd rfl hd
          | cons first d =>
              have hfirst : first = '{' := (List.cons.inj heq).1
              rw [hlast, hfirst] at hclosing
              exact absurd (List.mem_append_right c (List.mem_cons_self ..)) hclosing

/-- A token that starts no earlier than another one is the same one or starts after
    its end. -/
theorem Braceless.apart_of_le (h : Braceless key) (h' : Braceless key')
    (heq : token key ++ a = c ++ (token key' ++ a')) : c = [] ∧ key = key' ∨ token key <+: c := by
  rcases List.append_eq_append_iff.mp heq with ⟨d, hc, -⟩ | ⟨d, hkey, hrest⟩
  · exact Or.inr ⟨d, hc.symm⟩
  · by_cases hd : d = []
    · rw [hd, List.append_nil] at hkey
      exact Or.inr ⟨[], by rw [hkey, List.append_nil]⟩
    · have hnil : c = [] := h.not_inside hkey hd hrest.symm
      rw [hnil, List.nil_append] at heq
      exact Or.inl ⟨hnil, h.eq_of_token_append h' heq⟩

/-- Two tokens of one text are the same one or lie apart. -/
theorem token_apart (h : Braceless key) (h' : Braceless key')
    (heq : before ++ token key ++ after = before' ++ token key' ++ after') :
    before = before' ∧ key = key' ∨ before ++ token key <+: before'
      ∨ before' ++ token key' <+: before := by
  rw [List.append_assoc, List.append_assoc] at heq
  rcases List.append_eq_append_iff.mp heq with ⟨c, hbefore, hrest⟩ | ⟨c, hbefore, hrest⟩
  · rcases h.apart_of_le h' hrest with ⟨rfl, hkey⟩ | hfront
    · exact Or.inl ⟨by rw [hbefore, List.append_nil], hkey⟩
    · rw [hbefore]
      exact Or.inr (Or.inl ((List.prefix_append_right_inj before).mpr hfront))
  · rcases h'.apart_of_le h hrest with ⟨rfl, hkey⟩ | hfront
    · exact Or.inl ⟨by rw [hbefore, List.append_nil], hkey.symm⟩
    · rw [hbefore]
      exact Or.inr (Or.inr ((List.prefix_append_right_inj before').mpr hfront))

/-! ## Texts without slots -/

/-- Whether no slot is written anywhere in a text. -/
def Slotless (text : List Char) : Prop :=
  ∀ slot : Slot, ¬ slot.written <:+: text

instance (text : List Char) : Decidable (Slotless text) :=
  decidable_of_iff (∀ slot ∈ Slot.all, ¬ slot.written <:+: text)
    ⟨fun h slot => h slot slot.mem_all, fun h slot _ => h slot⟩

/-- Every written slot starts with two braces. -/
theorem slotless_of_braces (h : ¬ ['{', '{'] <:+: a) : Slotless a := by
  intro slot hslot
  have hbraces : ['{', '{'] <+: slot.written := ⟨slot.key.toList ++ ['}', '}'], rfl⟩
  exact h (hbraces.isInfix.trans hslot)

/-! ## Cuts -/

/-- Whether a text can be cut between two halves without cutting a written slot. -/
def CleanCut (front back : List Char) : Prop :=
  ∀ (slot : Slot) (before after : List Char), front ++ back = before ++ slot.written ++ after →
    before ++ slot.written <+: front ∨ front <+: before

/-- A text can be cut before every token. -/
theorem cleanCut_before (h : Braceless key) : CleanCut a (token key ++ b) := by
  intro slot before after heq
  rw [← List.append_assoc] at heq
  rcases token_apart h slot.braceless heq with ⟨rfl, -⟩ | hafter | hbefore
  · exact Or.inr (List.prefix_refl _)
  · exact Or.inr ((List.prefix_append a _).trans hafter)
  · exact Or.inl hbefore

/-- A text can be cut after every token. -/
theorem cleanCut_after (h : Braceless key) : CleanCut (token key) b := by
  intro slot before after heq
  have heq' : [] ++ token key ++ b = before ++ token slot.key.toList ++ after := heq
  rcases token_apart h slot.braceless heq' with ⟨rfl, hkey⟩ | hafter | hbefore
  · rw [List.nil_append, Slot.written_eq_token, ← hkey]
    exact Or.inl (List.prefix_refl _)
  · exact Or.inr hafter
  · exact Or.inl (hbefore.trans List.nil_prefix)

namespace Piece

/-- Where a slot is written, it is found. -/
theorem slotAt?_written (slot : Slot) (rest : List Char) :
    slotAt? (slot.written ++ rest) = some slot := by
  cases hfound : slotAt? (slot.written ++ rest) with
  | none =>
      have hnot := List.find?_eq_none.mp hfound slot slot.mem_all
      exact absurd (List.isPrefixOf_iff_prefix.mpr (List.prefix_append _ _)) hnot
  | some found =>
      have hfront : found.written.isPrefixOf (slot.written ++ rest) = true := by
        have hsome := List.find?_some hfound
        exact hsome
      obtain ⟨tail, htail⟩ := List.isPrefixOf_iff_prefix.mp hfront
      have hkeys := found.braceless.eq_of_token_append slot.braceless htail
      rw [Slot.eq_of_key_eq (String.toList_inj.mp hkeys)]

/-- What is found is written there. -/
theorem of_slotAt? {cs : List Char} {slot : Slot} (h : slotAt? cs = some slot) :
    ∃ rest : List Char, cs = slot.written ++ rest := by
  have hsome : slot.written.isPrefixOf cs = true := by
    have hfind := List.find?_some h
    exact hfind
  obtain ⟨rest, hrest⟩ := List.isPrefixOf_iff_prefix.mp hsome
  exact ⟨rest, hrest.symm⟩

/-- Where no slot is found, none is written. -/
theorem not_prefix_of_slotAt? {cs : List Char} (h : slotAt? cs = none) (slot : Slot) :
    ¬ slot.written <+: cs := by
  intro hfront
  obtain ⟨rest, rfl⟩ := hfront
  rw [slotAt?_written] at h
  cases h

theorem split_written (slot : Slot) (rest : List Char) :
    split (slot.written ++ rest) = .slot slot :: split rest := by
  have hfound := slotAt?_written slot rest
  obtain ⟨c, cs, hcons⟩ : ∃ c cs, slot.written ++ rest = c :: cs := ⟨_, _, rfl⟩
  rw [hcons] at hfound
  rw [hcons, split, hfound]
  simp only
  rw [← hcons, List.drop_left]

theorem split_literal {x : Char} {rest : List Char}
    (h : ∀ slot : Slot, ¬ slot.written <+: x :: rest) :
    split (x :: rest) = .literal x :: split rest := by
  cases hfound : slotAt? (x :: rest) with
  | none => rw [split, hfound]
  | some slot =>
      obtain ⟨tail, htail⟩ := of_slotAt? hfound
      exact absurd ⟨tail, htail.symm⟩ (h slot)

/-- At a clean cut the pieces of a text are those of its halves. -/
theorem split_append {front back : List Char} (h : CleanCut front back) :
    split (front ++ back) = split front ++ split back := by
  fun_induction split front with
  | case1 => rfl
  | case2 x rest slot hfound ih =>
      obtain ⟨tail, htail⟩ := of_slotAt? hfound
      rw [htail, List.drop_left] at ih
      rw [htail] at h
      have htailCut : CleanCut tail back := by
        intro other before after heq
        have hwhole : slot.written ++ tail ++ back
            = (slot.written ++ before) ++ other.written ++ after := by
          simp only [List.append_assoc] at heq ⊢
          rw [heq]
        rcases h other _ after hwhole with hin | hout
        · rw [List.append_assoc] at hin
          exact Or.inl ((List.prefix_append_right_inj _).mp hin)
        · exact Or.inr ((List.prefix_append_right_inj _).mp hout)
      rw [htail, List.append_assoc, split_written, List.drop_left, ih htailCut,
        List.cons_append]
  | case3 x rest hnone ih =>
      have hrestCut : CleanCut rest back := by
        intro other before after heq
        have hwhole : x :: rest ++ back = (x :: before) ++ other.written ++ after := by
          rw [List.cons_append, heq]
          rfl
        rcases h other _ after hwhole with hin | hout
        · exact Or.inl (List.cons_prefix_cons.mp hin).2
        · exact Or.inr (List.cons_prefix_cons.mp hout).2
      have hliteral : ∀ slot : Slot, ¬ slot.written <+: x :: (rest ++ back) := by
        intro slot hfront
        obtain ⟨after, hafter⟩ := hfront
        -- a slot written here would not be cut, so it would be found in the front already
        rcases h slot [] after (by rw [List.nil_append, hafter]; rfl) with hin | hout
        · exact not_prefix_of_slotAt? hnone slot hin
        · exact absurd (List.prefix_nil.mp hout) (List.cons_ne_nil _ _)
      rw [List.cons_append, split_literal hliteral, ih hrestCut, List.cons_append]

/-- A text without slots is split into its characters. -/
theorem split_of_slotless {text : List Char} (h : Slotless text) :
    split text = text.map .literal := by
  induction text with
  | nil => rw [split, List.map_nil]
  | cons x rest ih =>
      have hrest : Slotless rest := fun slot hslot => h slot (List.infix_cons hslot)
      rw [split_literal fun slot hslot => h slot hslot.isInfix, ih hrest, List.map_cons]

end Piece

end Stencil
