import Stencil.Proofs.Schema.EveryBlock
import Stencil.Schema.Index

/-! # Blocks that never close

    A text whose scan ends inside a body is refused with the header of that body.
    The header stands in the text as that of a found block would, and no brace after
    its own closes it (`Header.StaysOpen`); the text before it has blocks, since the
    scan was outside of bodies when it came there (`Scan.outside_of_found_eq`).

    The other way round, a text that ends with the brace of its last block is
    refused with the header of that block once the brace is gone.  Both are said in
    `unclosed_exact`. -/

namespace Stencil.Schema

variable {t more : List Char} {opened : Header} {text : List Char} {d : Nat}

namespace Scan

variable {s : Scan}

/-- A body stays open, or its block is found. -/
theorem open_or_found (hbody : s.place = .body opened d text) (more : List Char) :
    (∃ (d' : Nat) (text' : List Char), (s.run more).place = .body opened d' text')
      ∨ s.found.length < (s.run more).found.length := by
  induction more generalizing s d text with
  | nil => exact Or.inl ⟨d, text, hbody⟩
  | cons c more ih =>
      obtain ⟨o, z, p, found⟩ := s
      obtain rfl : p = .body opened d text := hbody
      -- unless this character closes the body, nothing is found here
      have hgo : ∀ (z' : Zone) (d' : Nat),
          step ⟨o, z, .body opened d text, found⟩ c
            = ⟨o + c.utf8Size, z', .body opened d' (c :: text), found⟩ →
          (∃ (d' : Nat) (text' : List Char),
              (run ⟨o, z, .body opened d text, found⟩ (c :: more)).place = .body opened d' text')
            ∨ found.length < (run ⟨o, z, .body opened d text, found⟩ (c :: more)).found.length := by
        intro z' d' hstep
        rw [run_cons, hstep]
        exact ih rfl
      by_cases hz : z.isCode = true
      · by_cases hopen : c = '{'
        · subst hopen
          exact hgo .code (d + 1) (step_open hz)
        by_cases hclose : c = '}'
        · subst hclose
          cases d with
          | zero =>
              refine Or.inr ?_
              rw [run_cons, step_finish hz]
              have hkept := suffix_found_run
                ⟨o + 1, .code, .between, ⟨opened, String.ofList text.reverse⟩ :: found⟩ more
              exact hkept.length_le
          | succ d => exact hgo .code d (step_close hz)
        exact hgo _ d (step_body c fun _ => ⟨hopen, hclose⟩)
      · exact hgo _ d (step_body c fun hz' => absurd hz' hz)

/-- Where no block is found between a text and a header that stays open after it, the
    text ends outside of bodies. -/
theorem outside_of_found_eq (hbody : (Scan.start.run (t ++ more)).place = .body opened d text)
    (hfound : (Scan.start.run t).found = (Scan.start.run (t ++ more)).found)
    (hoffset : opened.offset = width t) : (Scan.start.run t).place.isOutside = true := by
  cases hplace : (Scan.start.run t).place with
  | body earlier d' text' =>
      have hcases := open_or_found hplace more
      rw [← run_append, hfound, hbody] at hcases
      rcases hcases with ⟨d', text', hsame⟩ | hlt
      · -- the open body would be one whose header stands further up
        obtain ⟨rfl, -, -⟩ := Place.body.inj hsame
        have hfollows := (reads t).place
        rw [hplace] at hfollows
        exact absurd hoffset (Nat.ne_of_lt hfollows.offset_lt)
      · exact absurd hlt (Nat.lt_irrefl _)
  | _ => rfl

/-- A scan that ends in a body has read a header that stays open, and before that a text
    outside of whose bodies it was. -/
theorem staysOpen (hbody : (Scan.start.run t).place = .body opened d text) :
    ∃ before head : List Char, opened.StaysOpen t before head text.reverse
      ∧ (Scan.start.run before).place.isOutside = true := by
  obtain ⟨before, head, hopen, hfound, -⟩ := (keeps t).staysOpen (reads t) hbody
  rw [hopen.cut] at hbody hfound
  exact ⟨before, head, hopen, outside_of_found_eq hbody hfound hopen.offset.symm⟩

end Scan

/-- A text whose scan ends outside of bodies has blocks. -/
theorem exists_blocks {text : String}
    (h : (Scan.start.run text.toList).place.isOutside = true) :
    ∃ found : List Block, blocks text = .ok found := by
  rw [blocks, Scan.result]
  cases hplace : (Scan.start.run text.toList).place with
  | body opened d collected =>
      rw [hplace] at h
      cases h
  | _ => exact ⟨_, rfl⟩

/-- A text is refused with the header of the body in which its scan ends. -/
theorem blocks_eq_error_iff {text : String} :
    blocks text = .error opened
      ↔ ∃ (d : Nat) (collected : List Char),
          (Scan.start.run text.toList).place = .body opened d collected := by
  rw [blocks, Scan.result]
  cases (Scan.start.run text.toList).place with
  | body header d collected => simp
  | _ => simp

/-- Before the brace that ends its last block, a text is inside of that block. -/
theorem place_before_end {found : List Block} {last : Block} {front : List Char}
    (hfound : (Scan.start.run (front ++ ['}'])).found = last :: found)
    (hends : last.EndsAt (front ++ ['}']) (width (front ++ ['}']))) :
    ∃ collected : List Char, (Scan.start.run front).place = .body last.header 0 collected := by
  have hstep := (Scan.reads front).run_snoc '}'
  rw [hstep] at hfound
  -- no block that was found earlier ends so late
  have hnew : (Scan.start.run front).found ≠ last :: found := by
    intro hold
    obtain ⟨before, head, hspans, -⟩ := (Scan.keeps front).found [] found last hold
    have hearly : last.EndsAt front _ := ⟨before, head, hspans, rfl⟩
    have hle := hearly.le
    rw [(hearly.append ['}']).unique hends, width_append] at hle
    have hpos := ('}' : Char).utf8Size_pos
    simp only [width_cons, width_nil] at hle
    omega
  revert hfound hnew
  generalize Scan.start.run front = s
  intro hfound hnew
  obtain ⟨o, z, p, older⟩ := s
  by_cases hp : p.isOutside = true
  · refine absurd ?_ hnew
    by_cases hz : z.isCode = true
    · rw [Scan.step_outside hz hp] at hfound
      exact hfound
    · rw [Scan.step_idle hz hp] at hfound
      exact hfound
  cases p with
  | body opened d collected =>
      by_cases hz : z.isCode = true
      · cases d with
        | zero =>
            rw [Scan.step_finish hz] at hfound
            obtain ⟨rfl, -⟩ := List.cons.inj hfound
            exact ⟨collected, rfl⟩
        | succ d =>
            rw [Scan.step_close hz] at hfound
            exact absurd hfound hnew
      · rw [Scan.step_body '}' fun hz' => absurd hz' hz] at hfound
        exact absurd hfound hnew
  | _ => exact absurd rfl hp

/-- **Blocks that never close.**  If a text is refused with a header, that header stands
    in the text and its body goes on to the end, and the text before it has blocks.  And
    if a text has blocks and ends with the brace that closes the last of them, the text
    without that brace is refused with the header of that block. -/
theorem unclosed_exact (text : String) :
    (∀ opened : Header, blocks text = .error opened →
        ∃ before head body : List Char, opened.StaysOpen text.toList before head body
          ∧ ∃ found : List Block, blocks (String.ofList before) = .ok found)
      ∧ ∀ (found : List Block) (last : Block), blocks text = .ok (found ++ [last]) →
          last.EndsAt text.toList text.utf8ByteSize →
          ∃ shorter : String, text = shorter ++ "\x7d"
            ∧ blocks shorter = .error last.header ∧ Index.read shorter = .error last.header := by
  constructor
  · intro opened herror
    obtain ⟨d, collected, hbody⟩ := blocks_eq_error_iff.mp herror
    obtain ⟨before, head, hopen, hout⟩ := Scan.staysOpen hbody
    rw [← String.toList_ofList (l := before)] at hout
    exact ⟨before, head, _, hopen, exists_blocks hout⟩
  · intro found last hblocks hends
    obtain ⟨-, hfound⟩ := of_blocks hblocks
    rw [List.reverse_append, List.reverse_singleton, List.singleton_append] at hfound
    obtain ⟨before, head, hspans, hstop⟩ := id hends
    obtain ⟨after, hcut⟩ := hspans.cut
    -- the block goes on to the end, so there is nothing after its brace
    obtain ⟨front, hfront⟩ : ∃ front : List Char, text.toList = front ++ ['}'] := by
      refine ⟨before ++ (head ++ '{' :: last.body.toList), ?_⟩
      obtain rfl : after = [] := by
        rw [← width_toList, hcut] at hstop
        refine eq_nil_of_width_eq_zero ?_
        simp only [width_append, width_cons, width_nil] at hstop
        omega
      rw [hcut]
      simp only [List.append_assoc, List.cons_append]
    rw [← width_toList] at hends
    rw [hfront] at hends hfound
    obtain ⟨collected, hplace⟩ := place_before_end hfound hends
    have herror : blocks (String.ofList front) = .error last.header := by
      refine blocks_eq_error_iff.mpr ⟨0, collected, ?_⟩
      rw [String.toList_ofList]
      exact hplace
    refine ⟨String.ofList front, ?_, herror, ?_⟩
    · rw [← String.toList_inj, String.toList_append, String.toList_ofList, hfront]
      rfl
    · rw [Index.read, herror]
      rfl

/-- Neither a brace in a literal or a comment nor one of an inner pair closes the enum,
    which a keyword without a name comes before. -/
theorem unclosed_exact_role :
    (∃ before head body : List Char,
        Header.StaysOpen ⟨.enum, "E", 6⟩
            "model enum E\x7b\"\x7d\"//\x7d\n\x7b\x7d".toList before head body
          ∧ ∃ found : List Block, blocks (String.ofList before) = .ok found)
      ∧ ∃ shorter : String, "type A\x7b\x7d enum E\x7b\"\x7d\" \x7b\x7d\x7d" = shorter ++ "\x7d"
          ∧ blocks shorter = .error ⟨.enum, "E", 9⟩
          ∧ Index.read shorter = .error ⟨.enum, "E", 9⟩ := by
  obtain ⟨hopen, -⟩ := unclosed_exact "model enum E\x7b\"\x7d\"//\x7d\n\x7b\x7d"
  obtain ⟨-, hclosed⟩ := unclosed_exact "type A\x7b\x7d enum E\x7b\"\x7d\" \x7b\x7d\x7d"
  have hblocks : blocks "type A\x7b\x7d enum E\x7b\"\x7d\" \x7b\x7d\x7d"
      = .ok ([⟨⟨.type, "A", 0⟩, ""⟩] ++ [⟨⟨.enum, "E", 9⟩, "\"\x7d\" \x7b\x7d"⟩]) := rfl
  have hheader : IsHeader .enum "E".toList "enum E".toList :=
    ⟨[' '], [], by decide, by decide, by decide, by decide, rfl⟩
  have hinside : ∀ n < 7, 0 < depth (zoneAfter ("type A\x7b\x7d ".toList ++ "enum E".toList))
      ('{' :: "\"\x7d\" \x7b\x7d".toList.take n) := by
    decide
  have hspans : Block.Spans ⟨⟨.enum, "E", 9⟩, "\"\x7d\" \x7b\x7d"⟩
      "type A\x7b\x7d enum E\x7b\"\x7d\" \x7b\x7d\x7d".toList "type A\x7b\x7d ".toList
      "enum E".toList := by
    refine ⟨⟨[], rfl⟩, rfl, hheader, by decide, rfl, fun inner hinner => ?_, rfl⟩
    rw [List.prefix_iff_eq_take.mp hinner]
    exact hinside _ (Nat.lt_succ_of_le hinner.length_le)
  exact ⟨hopen _ rfl, hclosed _ _ hblocks ⟨_, _, hspans, rfl⟩⟩

end Stencil.Schema
