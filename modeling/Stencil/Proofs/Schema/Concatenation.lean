import Stencil.Proofs.Schema.Extent
import Stencil.Proofs.Schema.FieldTypes

/-! # Reading one text after another

    A text that ends in a block leaves the scan as it was at the start, but for
    the offset and the blocks found (`run_of_endsInBlock`).  A scan from there is
    the scan of the second text with its offsets moved (`run_shift`), so that
    what two such texts declare together is what the first one declares, with
    the declarations of the second one put after them (`read_append`). -/

namespace Stencil.Schema

open Stencil.Text (isBlank)

/-! ## Widths -/

theorem eq_nil_of_width_eq_zero {cs : List Char} (h : width cs = 0) : cs = [] := by
  cases cs with
  | nil => rfl
  | cons c cs =>
      have hpos := c.utf8Size_pos
      rw [width_cons] at h
      omega

/-- A text is cut in one way at an offset. -/
theorem append_inj_of_width_eq {before before' rest rest' : List Char}
    (h : before ++ rest = before' ++ rest') (hwidth : width before = width before') :
    before = before' ∧ rest = rest' := by
  rcases List.append_eq_append_iff.mp h with ⟨mid, rfl, rfl⟩ | ⟨mid, rfl, rfl⟩
  · rw [width_append] at hwidth
    obtain rfl : mid = [] := eq_nil_of_width_eq_zero (by omega)
    exact ⟨(List.append_nil _).symm, rfl⟩
  · rw [width_append] at hwidth
    obtain rfl : mid = [] := eq_nil_of_width_eq_zero (by omega)
    exact ⟨List.append_nil _, rfl⟩

/-- The width of a text is its number of bytes. -/
theorem width_toList (s : String) : width s.toList = s.utf8ByteSize := by
  have hlist : ∀ cs : List Char, (String.ofList cs).utf8ByteSize = width cs := by
    intro cs
    induction cs with
    | nil => rfl
    | cons c cs ih =>
        rw [String.ofList_cons, String.utf8ByteSize_append, String.utf8ByteSize_singleton, ih,
          width_cons]
  rw [← hlist, String.ofList_toList]

/-! ## Texts that end in a block -/

/-- Where blanks end, they end in one way. -/
theorem IsGap.append_inj {gap gap' rest rest' : List Char} {c c' : Char} (hgap : IsGap gap)
    (hgap' : IsGap gap') (hc : isBlank c = false) (hc' : isBlank c' = false)
    (h : gap ++ c :: rest = gap' ++ c' :: rest') : gap = gap' ∧ c :: rest = c' :: rest' := by
  induction gap generalizing gap' with
  | nil =>
      cases gap' with
      | nil => exact ⟨rfl, h⟩
      | cons b gap' =>
          obtain ⟨rfl, -⟩ := List.cons.inj h
          rw [hgap' c (List.mem_cons_self ..)] at hc
          cases hc
  | cons b gap ih =>
      cases gap' with
      | nil =>
          obtain ⟨rfl, -⟩ := List.cons.inj h
          rw [hgap b (List.mem_cons_self ..)] at hc'
          cases hc'
      | cons b' gap' =>
          obtain ⟨rfl, htail⟩ := List.cons.inj h
          obtain ⟨rfl, hrest⟩ := ih (fun d hd => hgap d (List.mem_cons_of_mem _ hd))
            (fun d hd => hgap' d (List.mem_cons_of_mem _ hd)) htail
          exact ⟨rfl, hrest⟩

/-- A written block is no longer than its name and body say. -/
theorem Written.append_eq {kind : BlockKind} {name body text text' after : List Char}
    (h : Written kind name body text) (h' : Written kind name body text')
    (heq : text = text' ++ after) : after = [] := by
  obtain ⟨gap₁, gap₂, -, hgap₁, hname, hgap₂, rfl⟩ := h
  obtain ⟨gap₁', gap₂', -, hgap₁', -, hgap₂', rfl⟩ := h'
  obtain ⟨c, rest, rfl⟩ := List.exists_cons_of_ne_nil hname.1
  have hc : isBlank c = false := (isNameChar_ne (hname.2 c (List.mem_cons_self ..))).2.2.2.2
  simp only [List.append_assoc, List.cons_append, List.nil_append,
    List.append_cancel_left_eq] at heq
  obtain ⟨-, hlabel⟩ := hgap₁.append_inj hgap₁' hc hc heq
  simp only [List.cons.injEq, true_and, List.append_cancel_left_eq] at hlabel
  obtain ⟨-, hbrace⟩ := hgap₂.append_inj hgap₂' rfl rfl hlabel
  simpa using hbrace

/-- Whether a text is empty or ends with the closing brace of its last block. -/
def EndsInBlock (text : String) : Prop :=
  text = "" ∨ ∃ (earlier : List Block) (last : Block) (before block : List Char),
    blocks text = .ok (earlier ++ [last]) ∧ text.toList = before ++ block
      ∧ width before = last.header.offset
      ∧ Written last.header.kind last.header.name.toList last.body.toList block

/-- A text that ends in a block leads between the blocks. -/
theorem run_of_endsInBlock {text : String} (h : EndsInBlock text) :
    ∃ found : List Block, blocks text = .ok found
      ∧ Scan.start.run text.toList = ⟨text.utf8ByteSize, .code, .between, found.reverse⟩ := by
  rcases h with rfl | ⟨earlier, last, before, block, hblocks, htext, hwidth, hwritten⟩
  · exact ⟨[], rfl, rfl⟩
  · refine ⟨earlier ++ [last], hblocks, ?_⟩
    have hfound : (Scan.start.run text.toList).found = [] ++ last :: earlier.reverse := by
      rw [Schema.blocks, Scan.result] at hblocks
      cases hplace : (Scan.start.run text.toList).place with
      | body opened d collected =>
          rw [hplace] at hblocks
          cases hblocks
      | _ =>
          rw [hplace] at hblocks
          rw [← List.reverse_reverse (Scan.found _), Except.ok.inj hblocks]
          simp
    -- the last block was found where it stands, so nothing comes after it
    obtain ⟨before', block', ⟨hwidth', hwritten', after, hcut⟩, hrun⟩ :=
      (Scan.reads text.toList).found [] earlier.reverse last hfound
    rw [htext] at hcut
    obtain ⟨rfl, hblock⟩ := append_inj_of_width_eq hcut (hwidth.trans hwidth'.symm)
    obtain rfl := hwritten.append_eq hwritten' hblock
    rw [List.append_nil] at hcut
    rw [← hcut, ← htext] at hrun
    rw [hrun, width_toList, List.reverse_append]
    rfl

/-! ## Moved scans -/

/-- The header with its offset moved. -/
def Header.shift (n : Nat) (h : Header) : Header := { h with offset := n + h.offset }

/-- The block with its offset moved. -/
def Block.shift (n : Nat) (b : Block) : Block := { b with header := b.header.shift n }

/-- The place with its offsets moved. -/
def Place.shift (n : Nat) : Place → Place
  | .between => .between
  | .word start letters => .word (n + start) letters
  | .keyword kind start => .keyword kind (n + start)
  | .name kind start nameStart letters => .name kind (n + start) (n + nameStart) letters
  | .header kind start nameStart label => .header kind (n + start) (n + nameStart) label
  | .body opened depth text => .body (opened.shift n) depth text

/-- The scan with its offsets moved, after blocks that were found before. -/
def Scan.shift (n : Nat) (older : List Block) (s : Scan) : Scan :=
  ⟨n + s.offset, s.zone, s.place.shift n, s.found.map (Block.shift n) ++ older⟩

variable {n : Nat} {older : List Block}

/-- A moved place moves on as the place does. -/
theorem Place.next_shift (p : Place) (o : Nat) (c : Char) :
    (p.shift n).next (n + o) c = (p.next o c).shift n := by
  cases p with
  | between => rw [Place.shift, Place.next, Place.next, apply_ite (Place.shift n)]; rfl
  | word start letters =>
      simp only [Place.shift, Place.next]
      split
      · rfl
      · split
        · cases BlockKind.ofKeyword? (wordOf letters) <;> rfl
        · rfl
  | keyword kind start =>
      simp only [Place.shift, Place.next]
      split
      · rfl
      · split <;> rfl
  | name kind start nameStart letters =>
      simp only [Place.shift, Place.next]
      split
      · rfl
      · split
        · rfl
        · split <;> rfl
  | header kind start nameStart label =>
      simp only [Place.shift, Place.next]
      split
      · cases BlockKind.ofKeyword? label <;> rfl
      · split
        · rfl
        · split <;> rfl
  | body opened depth text => rfl

@[simp] theorem Place.isOutside_shift (p : Place) : (p.shift n).isOutside = p.isOutside := by
  cases p <;> rfl

namespace Scan

/-- A moved scan makes the moved step. -/
theorem step_shift (s : Scan) (c : Char) :
    (s.shift n older).step c = (s.step c).shift n older := by
  obtain ⟨o, z, p, found⟩ := s
  simp only [shift]
  cases hp : p.isOutside with
  | true =>
      have hp' : (p.shift n).isOutside = true := (p.isOutside_shift).trans hp
      by_cases hz : z.isCode = true
      · -- offsets enter a place only at the start of a word
        rw [step_outside hz hp, step_outside hz hp', Place.next_shift, Nat.add_assoc]
      · rw [step_idle hz hp, step_idle hz hp', Nat.add_assoc]
  | false =>
      cases p with
      | body opened d text =>
          by_cases hz : z.isCode = true
          · by_cases hopen : c = '{'
            · subst hopen
              rw [Place.shift, step_open hz, step_open hz, Nat.add_assoc]
              rfl
            by_cases hclose : c = '}'
            · subst hclose
              cases d with
              | zero =>
                  rw [Place.shift, step_finish hz, step_finish hz, Nat.add_assoc]
                  rfl
              | succ d =>
                  rw [Place.shift, step_close hz, step_close hz, Nat.add_assoc]
                  rfl
            rw [Place.shift, step_body c fun _ => ⟨hopen, hclose⟩,
              step_body c fun _ => ⟨hopen, hclose⟩, Nat.add_assoc]
            rfl
          · rw [Place.shift, step_body c fun h => absurd h hz, step_body c fun h => absurd h hz,
              Nat.add_assoc]
            rfl
      | _ => cases hp

/-- A moved scan makes the moved run. -/
theorem run_shift (s : Scan) (text : List Char) :
    (s.shift n older).run text = (s.run text).shift n older := by
  induction text generalizing s with
  | nil => rfl
  | cons c text ih => rw [run_cons, run_cons, step_shift, ih]

/-- The result of a moved scan: the header that is still open is moved, or the
    blocks found are, after those that were found before. -/
theorem result_shift (s : Scan) : (s.shift n older).result
    = match s.result with
      | .ok found => .ok (older.reverse ++ found.map (Block.shift n))
      | .error opened => .error (opened.shift n) := by
  obtain ⟨o, z, p, found⟩ := s
  cases p with
  | body opened d text => rfl
  | _ =>
      show Except.ok (found.map (Block.shift n) ++ older).reverse = _
      rw [List.reverse_append, ← List.map_reverse]
      rfl

end Scan

/-! ## Declarations of both texts -/

@[simp] theorem Block.model?_shift (b : Block) : (b.shift n).model? = b.model? := rfl

@[simp] theorem Block.enum?_shift (b : Block) : (b.shift n).enum? = b.enum? := rfl

/-- The index with the declarations of another one put after its own: a name that
    is declared already keeps its place and takes the later declaration. -/
def Index.extend (index later : Index) : Index where
  models := index.models.putAll later.models.toList
  enums := index.enums.putAll later.enums.toList

/-- Blocks after blocks declare what both of them do. -/
theorem Index.ofBlocks_append (earlier later : List Block) :
    Index.ofBlocks (earlier ++ later.map (Block.shift n))
      = (Index.ofBlocks earlier).extend (Index.ofBlocks later) := by
  have hmodels : (Index.ofBlocks (earlier ++ later.map (Block.shift n))).models
      = ((Index.ofBlocks earlier).extend (Index.ofBlocks later)).models := by
    rw [Index.extend, Index.models_ofBlocks, Index.models_ofBlocks, Index.models_ofBlocks,
      Ordered.putAll_toList_ofList, List.filterMap_append, List.filterMap_map,
      Ordered.ofList_eq_putAll, Ordered.ofList_eq_putAll, Ordered.putAll_append]
    rfl
  have henums : (Index.ofBlocks (earlier ++ later.map (Block.shift n))).enums
      = ((Index.ofBlocks earlier).extend (Index.ofBlocks later)).enums := by
    show Ordered.ofList _ = (Ordered.ofList _).putAll (Ordered.ofList _).toList
    rw [Ordered.putAll_toList_ofList, List.filterMap_append, List.filterMap_map,
      Ordered.ofList_eq_putAll, Ordered.ofList_eq_putAll, Ordered.putAll_append]
    rfl
  calc Index.ofBlocks (earlier ++ later.map (Block.shift n))
      = ⟨(Index.ofBlocks (earlier ++ later.map (Block.shift n))).models,
          (Index.ofBlocks (earlier ++ later.map (Block.shift n))).enums⟩ := rfl
    _ = (Index.ofBlocks earlier).extend (Index.ofBlocks later) := by rw [hmodels, henums]

/-- The blocks of two texts are those of the first one and the moved ones of the
    second one. -/
theorem blocks_append {text : String} {found : List Block} (more : String)
    (hrun : Scan.start.run text.toList = ⟨text.utf8ByteSize, .code, .between, found.reverse⟩) :
    blocks (text ++ more)
      = match blocks more with
        | .ok later => .ok (found ++ later.map (Block.shift text.utf8ByteSize))
        | .error opened => .error (opened.shift text.utf8ByteSize) := by
  have hstart : (⟨text.utf8ByteSize, .code, .between, found.reverse⟩ : Scan)
      = Scan.start.shift text.utf8ByteSize found.reverse := rfl
  rw [blocks, String.toList_append, Scan.run_append, hrun, hstart, Scan.run_shift,
    Scan.result_shift, List.reverse_reverse]
  rfl

/-- **Reading is compositional.**  After a text that ends in a block, a second text
    declares what it declares alone, put after what the first one declares; and if
    a block of the second text never closes, the same header is reported, further
    down by the length of the first text. -/
theorem read_append {text : String} (h : EndsInBlock text) (more : String) :
    ∃ index : Index, Index.read text = .ok index
      ∧ (∀ later : Index, Index.read more = .ok later →
          Index.read (text ++ more) = .ok (index.extend later))
      ∧ (∀ opened : Header, Index.read more = .error opened →
          Index.read (text ++ more)
            = .error ⟨opened.kind, opened.name, text.utf8ByteSize + opened.offset⟩) := by
  obtain ⟨found, hblocks, hrun⟩ := run_of_endsInBlock h
  have happend := blocks_append more hrun
  refine ⟨Index.ofBlocks found, ?_, ?_, ?_⟩
  · rw [Index.read, hblocks]
    rfl
  · intro later hlater
    rw [Index.read] at hlater
    cases hmore : blocks more with
    | error opened => rw [hmore] at hlater; cases hlater
    | ok blocks =>
        rw [hmore] at hlater happend
        obtain rfl := Except.ok.inj hlater
        rw [Index.read, happend]
        exact congrArg Except.ok (Index.ofBlocks_append found blocks)
  · intro opened hopened
    rw [Index.read] at hopened
    cases hmore : blocks more with
    | ok blocks => rw [hmore] at hopened; cases hopened
    | error header =>
        rw [hmore] at hopened happend
        obtain rfl := Except.error.inj hopened
        rw [Index.read, happend]
        rfl

/-- Two models before two more texts: one that declares the first model once more, so that
    its last declaration stands in the first place, and one with an enum that never
    closes. -/
theorem read_append_user :
    EndsInBlock "model User\x7bid Int\x7dmodel Tag\x7b\x7d"
      ∧ Index.read ("model User\x7bid Int\x7dmodel Tag\x7b\x7d"
          ++ "enum Role\x7bA\x7dmodel User\x7bat Int?\x7d")
        = .ok ⟨Ordered.ofList [("User", Model.ofList [("at", "Int?")]), ("Tag", Model.empty)],
            Ordered.ofList [("Role", ⟨"Role", ["A"]⟩)]⟩
      ∧ Index.read ("model User\x7bid Int\x7dmodel Tag\x7b\x7d" ++ "\nenum Role\x7b \"\x7d\"")
        = .error ⟨.enum, "Role", 30⟩ := by
  have h : EndsInBlock "model User\x7bid Int\x7dmodel Tag\x7b\x7d" :=
    .inr ⟨[⟨⟨.model, "User", 0⟩, "id Int"⟩], ⟨⟨.model, "Tag", 18⟩, ""⟩,
      "model User\x7bid Int\x7d".toList, _, rfl, rfl, rfl,
      [' '], [], by decide, by decide, by decide, by decide, rfl⟩
  have hfirst : Index.read "model User\x7bid Int\x7dmodel Tag\x7b\x7d"
      = .ok (Index.ofBlocks [⟨⟨.model, "User", 0⟩, "id Int"⟩, ⟨⟨.model, "Tag", 18⟩, ""⟩]) := rfl
  have hlater : Index.read "enum Role\x7bA\x7dmodel User\x7bat Int?\x7d"
      = .ok (Index.ofBlocks [⟨⟨.enum, "Role", 0⟩, "A"⟩, ⟨⟨.model, "User", 12⟩, "at Int?"⟩]) := rfl
  have hopen : Index.read "\nenum Role\x7b \"\x7d\"" = .error ⟨.enum, "Role", 1⟩ := rfl
  obtain ⟨index, hindex, hextend, -⟩ :=
    read_append h "enum Role\x7bA\x7dmodel User\x7bat Int?\x7d"
  obtain rfl := Except.ok.inj (hindex.symm.trans hfirst)
  obtain ⟨_, -, -, herror⟩ := read_append h "\nenum Role\x7b \"\x7d\""
  exact ⟨h, (hextend _ hlater).trans (congrArg Except.ok (by decide +kernel)), herror _ hopen⟩

end Stencil.Schema
