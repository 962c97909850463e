import Mathlib.Data.List.Forall2
import Stencil.Proofs.Schema.FieldTypes
import Stencil.Proofs.Schema.Passage
import Stencil.Proofs.Schema.TokenPassage

/-! # Scans side by side

    What an attribute says is of no account for what a schema declares, but for two
    things: whether it is one of the whole block, and whether it makes its field a
    relation.  Attributes that agree in these are alike (`Alike`), and so are braced runs
    of a model, which are passed over.  Lists of alike tokens declare the same.

    Two scans that stand side by side (`TokenScan.Beside`, `Scan.Beside`) stay so when
    they read the same characters, wherever they stand and however far apart.  So texts
    that differ in the middle declare the same if the scans have come side by side after
    the difference (`Scan.Beside.sameBlocks`). -/

namespace Stencil.Schema

open Stencil.Text (occursIn occursIn_append_cons)

/-! ## Tokens -/

/-- Whether a text has the mark of relations in it. -/
def marksRelation (cs : List Char) : Bool :=
  occursIn "@relation(".toList cs

theorem marksRelation_append_cons {c : Char} (hc : c ∉ "@relation(".toList) (a b : List Char) :
    marksRelation (a ++ c :: b) = (marksRelation a || marksRelation b) :=
  occursIn_append_cons (by decide) hc a b

/-- Whether two tokens come to the same for what a block of a kind declares. -/
inductive Alike (kind : BlockKind) : String → String → Prop where
  | same (token : String) : Alike kind token token
  /-- Attributes that agree in what counts. -/
  | attributes {token token' : String} :
      isAttribute token = true → isAttribute token' = true →
      isBlockAttribute token = isBlockAttribute token' →
      marksRelation token.toList = marksRelation token'.toList → Alike kind token token'
  /-- Braced runs, but in an enum, where they are values. -/
  | braced {token token' : String} :
      kind ≠ .enum → isBraced token = true → isBraced token' = true → Alike kind token token'

variable {kind : BlockKind} {token token' name type : String} {ts ts' rest rest' : List String}

/-- A braced run is no attribute. -/
theorem isAttribute_of_isBraced (h : isBraced token = true) : isAttribute token = false := by
  have hbrace : token.toList.head? = some '{' := of_decide_eq_true h
  rw [isAttribute, hbrace]
  rfl

/-- A braced run is no attribute of the whole block. -/
theorem isBlockAttribute_of_isBraced (h : isBraced token = true) :
    isBlockAttribute token = false := by
  obtain ⟨rest, hrest⟩ := List.head?_eq_some_iff.mp (of_decide_eq_true h)
  rw [isBlockAttribute, hrest]
  rfl

theorem Alike.isAttribute (h : Alike kind token token') :
    Schema.isAttribute token = Schema.isAttribute token' := by
  cases h with
  | same => rfl
  | attributes h h' => rw [h, h']
  | braced _ h h' => rw [isAttribute_of_isBraced h, isAttribute_of_isBraced h']

theorem Alike.isBlockAttribute (h : Alike kind token token') :
    Schema.isBlockAttribute token = Schema.isBlockAttribute token' := by
  cases h with
  | same => rfl
  | attributes _ _ h => exact h
  | braced _ h h' => rw [isBlockAttribute_of_isBraced h, isBlockAttribute_of_isBraced h']

theorem Alike.isBraced (h : Alike kind token token') :
    Schema.isBraced token = Schema.isBraced token' := by
  have hnone : ∀ {t : String}, Schema.isAttribute t = true → Schema.isBraced t = false :=
    fun hat => Bool.eq_false_iff.mpr fun hbraced =>
      Bool.false_ne_true ((isAttribute_of_isBraced hbraced).symm.trans hat)
  cases h with
  | same => rfl
  | attributes h h' => rw [hnone h, hnone h']
  | braced _ h h' => rw [h, h']

/-- Alike attributes agree about relations. -/
theorem Alike.marksRelation (h : Alike kind token token')
    (hattribute : Schema.isAttribute token = true) :
    Schema.marksRelation token.toList = Schema.marksRelation token'.toList := by
  cases h with
  | same => rfl
  | attributes _ _ _ h => exact h
  | braced _ h =>
      exact absurd ((isAttribute_of_isBraced h).symm.trans hattribute) Bool.false_ne_true

/-- Names, types and values can only be alike if they are equal. -/
theorem Alike.eq (h : Alike kind token token') (hattribute : Schema.isAttribute token = false)
    (hbraced : kind = .enum ∨ Schema.isBraced token = false) : token = token' := by
  cases h with
  | same => rfl
  | attributes h => exact absurd (hattribute.symm.trans h) Bool.false_ne_true
  | braced hkind h =>
      rcases hbraced with heq | hnone
      · exact absurd heq hkind
      · exact absurd (hnone.symm.trans h) Bool.false_ne_true

theorem Alike.trans {token'' : String} (h : Alike kind token token')
    (h' : Alike kind token' token'') : Alike kind token token'' := by
  cases h with
  | same => exact h'
  | attributes hat hat' hblock hmarks =>
      exact .attributes hat (h'.isAttribute ▸ hat') (hblock.trans h'.isBlockAttribute)
        (hmarks.trans (h'.marksRelation hat'))
  | braced hkind hbraced hbraced' => exact .braced hkind hbraced (h'.isBraced ▸ hbraced')

/-- A braced run may go on in any two ways. -/
theorem alike_append_braced {front x y : List Char} (hkind : kind ≠ .enum)
    (hfront : front.head? = some '{') :
    Alike kind (String.ofList (front ++ x)) (String.ofList (front ++ y)) := by
  obtain ⟨front, rfl⟩ := List.head?_eq_some_iff.mp hfront
  refine .braced hkind ?_ ?_ <;> rw [isBraced, String.toList_ofList] <;> rfl

/-- An attribute may go on in two ways that agree about relations, unless one of them
    starts with a further at sign. -/
theorem alike_append {front x y : List Char} (hfront : front.head? = some '@')
    (hx : x.head? ≠ some '@') (hy : y.head? ≠ some '@')
    (hmarks : marksRelation (front ++ x) = marksRelation (front ++ y)) :
    Alike kind (String.ofList (front ++ x)) (String.ofList (front ++ y)) := by
  obtain ⟨front, rfl⟩ := List.head?_eq_some_iff.mp hfront
  refine .attributes ?_ ?_ ?_ ?_
  · rw [isAttribute, String.toList_ofList]
    rfl
  · rw [isAttribute, String.toList_ofList]
    rfl
  · have hsign : ∀ z : List Char, z.head? ≠ some '@' →
        ['@', '@'].isPrefixOf ('@' :: front ++ z) = (front.head? == some '@') := by
      intro z hz
      cases front with
      | nil =>
          cases z with
          | nil => rfl
          | cons c z =>
              have hc : ('@' == c) = false :=
                beq_false_of_ne fun h => hz (congrArg some h.symm)
              simp [List.isPrefixOf, hc]
      | cons c front => simp [List.isPrefixOf, Bool.beq_eq_decide_eq, eq_comm]
    rw [isBlockAttribute, isBlockAttribute, String.toList_ofList, String.toList_ofList,
      hsign x hx, hsign y hy]
  · rw [String.toList_ofList, String.toList_ofList]
    exact hmarks

/-! ## Declarations of alike tokens -/

/-- Whether two declarations come to the same field. -/
structure Declaration.Agrees (d d' : Declaration) : Prop where
  name : d.name = d'.name
  type : d.type = d'.type
  relation : d.isRelation = d'.isRelation

/-- Where tokens are alike, the attributes in front of them agree about relations. -/
theorem any_fieldAttributes_alike (h : List.Forall₂ (Alike kind) ts ts') :
    (fieldAttributes ts).any (fun token => marksRelation token.toList)
      = (fieldAttributes ts').any fun token => marksRelation token.toList := by
  induction h with
  | nil => rfl
  | @cons token token' ts ts' halike _ ih =>
      rw [fieldAttributes, fieldAttributes, List.takeWhile_cons, List.takeWhile_cons,
        ← halike.isAttribute, ← halike.isBlockAttribute]
      by_cases hkeep : (isAttribute token && !isBlockAttribute token) = true
      · have hattribute : isAttribute token = true := (Bool.and_eq_true_iff.mp hkeep).1
        rw [if_pos hkeep, if_pos hkeep, List.any_cons, List.any_cons,
          halike.marksRelation hattribute]
        exact congrArg _ ih
      · rw [if_neg hkeep, if_neg hkeep]

/-- Alike tokens declare the same fields. -/
theorem declarations_alike (h : List.Forall₂ (Alike kind) ts ts') :
    List.Forall₂ Declaration.Agrees (declarations ts) (declarations ts') := by
  induction ts using declarations.induct generalizing ts' with
  | case1 =>
      cases h
      exact List.Forall₂.nil
  | case2 token =>
      obtain _ | ⟨halike, hnil⟩ := h
      cases hnil
      exact List.Forall₂.nil
  | case3 name type rest hpass ih =>
      obtain _ | @⟨_, name', _, _, hname, hrest⟩ := h
      obtain _ | @⟨_, type', _, rest', htype, htail⟩ := hrest
      have hpass' : (Schema.isAttribute name' || Schema.isBraced name'
          || Schema.isAttribute type') = true := by
        rw [← hname.isAttribute, ← hname.isBraced, ← htype.isAttribute]
        exact hpass
      rw [declarations, if_pos hpass, declarations, if_pos hpass']
      exact ih (List.Forall₂.cons htype htail)
  | case4 name type rest hpass hbraced ih =>
      obtain _ | @⟨_, name', _, _, hname, hrest⟩ := h
      obtain _ | @⟨_, type', _, rest', htype, htail⟩ := hrest
      have hpass' : ¬ (Schema.isAttribute name' || Schema.isBraced name'
          || Schema.isAttribute type') = true := by
        rw [← hname.isAttribute, ← hname.isBraced, ← htype.isAttribute]
        exact hpass
      rw [declarations, if_neg hpass, if_pos hbraced, declarations, if_neg hpass',
        if_pos (htype.isBraced.symm.trans hbraced)]
      exact ih htail
  | case5 name type rest hpass hbraced ih =>
      obtain _ | @⟨_, name', _, _, hname, hrest⟩ := h
      obtain _ | @⟨_, type', _, rest', htype, htail⟩ := hrest
      -- a name and a type are neither attributes nor braced runs, so they are equal
      have hplain : ((isAttribute name = false ∧ isBraced name = false)
          ∧ isAttribute type = false) ∧ isBraced type = false := by
        simpa only [Bool.or_eq_true, not_or, Bool.not_eq_true] using And.intro hpass hbraced
      obtain rfl := hname.eq hplain.1.1.1 (Or.inr hplain.1.1.2)
      obtain rfl := htype.eq hplain.1.2 (Or.inr hplain.2)
      rw [declarations, if_neg hpass, if_neg hbraced, declarations, if_neg hpass,
        if_neg hbraced]
      exact List.Forall₂.cons ⟨rfl, rfl, any_fieldAttributes_alike htail⟩ (ih htail)

/-- Alike tokens declare the same model. -/
theorem Model.ofTokens_alike (h : List.Forall₂ (Alike kind) ts ts') :
    Model.ofTokens ts = Model.ofTokens ts' := by
  have hfields : ∀ {ds ds' : List Declaration}, List.Forall₂ Declaration.Agrees ds ds' →
      (ds.filter fun d => !d.isRelation).map (fun d => (d.name, d.type))
        = (ds'.filter fun d => !d.isRelation).map fun d => (d.name, d.type) := by
    intro ds ds' hagree
    induction hagree with
    | nil => rfl
    | @cons d d' ds ds' hd _ ih =>
        rw [List.filter_cons, List.filter_cons, hd.relation]
        by_cases hkeep : (!d'.isRelation) = true
        · rw [if_pos hkeep, if_pos hkeep, List.map_cons, List.map_cons, hd.name, hd.type, ih]
        · rw [if_neg hkeep, if_neg hkeep, ih]
  rw [Model.ofTokens, Model.ofTokens, hfields (declarations_alike h)]

/-- Alike tokens declare the same enum. -/
theorem Enum.ofTokens_alike (name : String) (h : List.Forall₂ (Alike .enum) ts ts') :
    Enum.ofTokens name ts = Enum.ofTokens name ts' := by
  have hvalues : ts.filter (fun token => !isAttribute token)
      = ts'.filter fun token => !isAttribute token := by
    induction h with
    | nil => rfl
    | @cons token token' ts ts' halike _ ih =>
        rw [List.filter_cons, List.filter_cons, ← halike.isAttribute, ih]
        cases hattribute : isAttribute token with
        | true => rfl
        | false => rw [halike.eq hattribute (Or.inl rfl)]
  rw [Enum.ofTokens, Enum.ofTokens, hvalues]

/-! ## Token scans -/

namespace TokenScan

/-- Whether two token scans have read alike tokens, and will still have when they go on
    alike. -/
structure Beside (kind : BlockKind) (s s' : TokenScan) : Prop where
  finished : List.Forall₂ (Alike kind) s.finished s'.finished
  last : s.pending.head? = s'.pending.head?
  pending : ∀ more : List Char,
    Alike kind (String.ofList (s.pending.reverse ++ more))
      (String.ofList (s'.pending.reverse ++ more))
  depth : s.depth = s'.depth
  zone : s.zone = s'.zone

variable {kind : BlockKind} {s s' : TokenScan}

theorem Beside.refl (kind : BlockKind) (s : TokenScan) : s.Beside kind s where
  finished := List.forall₂_same.mpr fun _ _ => Alike.same _
  last := rfl
  pending := fun _ => Alike.same _
  depth := rfl
  zone := rfl

theorem Beside.isEmpty (h : s.Beside kind s') : s.pending.isEmpty = s'.pending.isEmpty := by
  have hlast := h.last
  cases hp : s.pending with
  | nil =>
      rw [hp] at hlast
      rw [List.head?_eq_none_iff.mp hlast.symm]
  | cons c cs =>
      rw [hp] at hlast
      obtain ⟨cs', hp'⟩ := List.head?_eq_some_iff.mp hlast.symm
      rw [hp']
      rfl

theorem Beside.push (h : s.Beside kind s') (c : Char) : (s.push c).Beside kind (s'.push c) where
  finished := h.finished
  last := rfl
  pending := by
    intro more
    have hmore := h.pending (c :: more)
    rw [TokenScan.push, TokenScan.push, List.reverse_cons, List.reverse_cons,
      List.append_assoc, List.append_assoc]
    exact hmore
  depth := h.depth
  zone := h.zone

theorem Beside.close (h : s.Beside kind s') : s.close.Beside kind s'.close := by
  rw [TokenScan.close, TokenScan.close, h.isEmpty]
  by_cases hempty : s'.pending.isEmpty = true
  · rw [if_pos hempty, if_pos hempty]
    exact h
  · rw [if_neg hempty, if_neg hempty]
    have htoken := h.pending []
    rw [List.append_nil, List.append_nil] at htoken
    exact ⟨List.Forall₂.cons htoken h.finished, rfl, fun _ => Alike.same _, h.depth, h.zone⟩

theorem Beside.withZone (h : s.Beside kind s') (z : Zone) :
    Beside kind { s with zone := z } { s' with zone := z } :=
  ⟨h.finished, h.last, h.pending, h.depth, rfl⟩

theorem Beside.withDepth (h : s.Beside kind s') (d : Nat) :
    Beside kind { s with depth := d } { s' with depth := d } :=
  ⟨h.finished, h.last, h.pending, rfl, h.zone⟩

theorem Beside.code (h : s.Beside kind s') (c : Char) : (s.code c).Beside kind (s'.code c) := by
  rw [TokenScan.code, TokenScan.code, h.last, h.depth]
  split
  · exact (h.push c).withZone .literal
  · split
    · exact h.close.push c
    · split
      · exact (h.push c).withDepth _
      · split
        · exact (h.push c).withDepth _
        · split
          · exact h.close
          · exact h.push c

/-- Token scans side by side read a character. -/
theorem Beside.step (h : s.Beside kind s') (c : Char) : (s.step c).Beside kind (s'.step c) := by
  obtain ⟨finished, pending, d, z⟩ := s
  obtain ⟨finished', pending', d', z'⟩ := s'
  obtain rfl : z = z' := h.zone
  obtain rfl : d = d' := h.depth
  cases z with
  | code =>
      show Beside kind (if (c = '/' && d = 0) = true then _ else _) (if _ then _ else _)
      split
      · exact h.withZone .slash
      · exact h.code c
  | slash =>
      show Beside kind (if c = '/' then _ else _) (if _ then _ else _)
      split
      · exact h.close.withZone .comment
      · exact ((h.withZone .code).push '/').code c
  | comment => exact h.withZone _
  | literal => exact (h.push c).withZone _
  | escape => exact (h.push c).withZone _

/-- Token scans side by side have read alike tokens. -/
theorem Beside.result (h : s.Beside kind s') : List.Forall₂ (Alike kind) s.result s'.result := by
  have hlast : (if s.zone = .slash then s.push '/' else s).Beside kind
      (if s'.zone = .slash then s'.push '/' else s') := by
    rw [h.zone]
    split
    · exact h.push '/'
    · exact h
  exact List.rel_reverse hlast.close.finished

end TokenScan

/-! ## Block scans -/

/-- Whether two blocks are declarations of the same, by the same name. -/
structure Block.DeclaresAs (b b' : Block) : Prop where
  kind : b.header.kind = b'.header.kind
  name : b.header.name = b'.header.name
  model? : b.model? = b'.model?
  enum? : b.enum? = b'.enum?

/-- Blocks with alike tokens declare the same. -/
theorem Block.declaresAs_of_tokens {b b' : Block} (hkind : b.header.kind = b'.header.kind)
    (hname : b.header.name = b'.header.name)
    (htokens : List.Forall₂ (Alike b.header.kind) (tokens b.body) (tokens b'.body)) :
    b.DeclaresAs b' where
  kind := hkind
  name := hname
  model? := by rw [Block.model?, Block.model?, hkind, hname, Model.ofTokens_alike htokens]
  enum? := by
    rw [Block.enum?, Block.enum?, ← hkind, hname]
    by_cases henum : b.header.kind = .enum
    · rw [henum] at htokens
      rw [if_pos henum, if_pos henum, Enum.ofTokens_alike _ htokens]
    · rw [if_neg henum, if_neg henum]

/-- Whether two texts have blocks that declare the same, one by one, or both have a
    block of the same kind and name that never closes. -/
def SameBlocks : Except Header (List Block) → Except Header (List Block) → Prop
  | .ok found, .ok found' => List.Forall₂ Block.DeclaresAs found found'
  | .error opened, .error opened' => opened.kind = opened'.kind ∧ opened.name = opened'.name
  | _, _ => False

/-- The token scan of what has been read of a body, latest first. -/
def bodyScan (text : List Char) : TokenScan :=
  TokenScan.start.run text.reverse

theorem bodyScan_cons (c : Char) (text : List Char) :
    bodyScan (c :: text) = (bodyScan text).step c := by
  rw [bodyScan, List.reverse_cons, TokenScan.run_append]
  rfl

theorem bodyScan_append (part text : List Char) :
    bodyScan (part.reverse ++ text) = (bodyScan text).run part := by
  rw [bodyScan, List.reverse_append, List.reverse_reverse, TokenScan.run_append]
  rfl

/-- Whether two places are the same but for offsets and for what alike tokens a body has. -/
inductive Place.Beside : Place → Place → Prop where
  | between : Beside .between .between
  | word {start start' : Nat} (letters : List Char) :
      Beside (.word start letters) (.word start' letters)
  | keyword {start start' : Nat} (kind : BlockKind) :
      Beside (.keyword kind start) (.keyword kind start')
  | name {start start' nameStart nameStart' : Nat} (kind : BlockKind) (letters : List Char) :
      Beside (.name kind start nameStart letters) (.name kind start' nameStart' letters)
  | header {start start' nameStart nameStart' : Nat} (kind : BlockKind) (label : String) :
      Beside (.header kind start nameStart label) (.header kind start' nameStart' label)
  | body {opened opened' : Header} {text text' : List Char} (d : Nat) :
      opened.kind = opened'.kind → opened.name = opened'.name →
      (bodyScan text).Beside opened.kind (bodyScan text') →
      Beside (.body opened d text) (.body opened' d text')

theorem Place.Beside.isOutside {p p' : Place} (h : p.Beside p') : p.isOutside = p'.isOutside := by
  cases h <;> rfl

theorem Place.Beside.refl (p : Place) : p.Beside p := by
  cases p with
  | between => exact .between
  | word start letters => exact .word letters
  | keyword kind start => exact .keyword kind
  | name kind start nameStart letters => exact .name kind letters
  | header kind start nameStart label => exact .header kind label
  | body opened d text => exact .body d rfl rfl (TokenScan.Beside.refl _ _)

/-- Places side by side move on side by side, whatever their offsets. -/
theorem Place.Beside.next {p p' : Place} (h : p.Beside p') (hp : p.isOutside = true)
    (o o' : Nat) (c : Char) : (p.next o c).Beside (p'.next o' c) := by
  cases h with
  | between =>
      rw [Place.next, Place.next]
      split
      · exact .word [c]
      · exact .between
  | word letters =>
      rw [Place.next, Place.next]
      split
      · exact .word (c :: letters)
      · split
        · cases BlockKind.ofKeyword? (wordOf letters) with
          | some kind => exact .keyword kind
          | none => exact .between
        · exact .between
  | keyword kind =>
      rw [Place.next, Place.next]
      split
      · exact .name kind [c]
      · split
        · exact .keyword kind
        · exact .between
  | name kind letters =>
      rw [Place.next, Place.next]
      split
      · exact .name kind (c :: letters)
      · split
        · exact .header kind (wordOf letters)
        · split
          · exact .body 0 rfl rfl (TokenScan.Beside.refl _ _)
          · exact .between
  | header kind label =>
      rw [Place.next, Place.next]
      split
      · cases BlockKind.ofKeyword? label with
        | some inner => exact .name inner [c]
        | none => exact .word [c]
      · split
        · exact .header kind label
        · split
          · exact .body 0 rfl rfl (TokenScan.Beside.refl _ _)
          · exact .between
  | body d hkind hname hscan => cases hp

namespace Scan

/-- Whether two scans stand side by side: in the same zone and place, offsets and the
    characters of attributes apart, after blocks that declare the same. -/
structure Beside (s s' : Scan) : Prop where
  zone : s.zone = s'.zone
  place : s.place.Beside s'.place
  found : List.Forall₂ Block.DeclaresAs s.found s'.found

variable {s s' : Scan}

theorem Beside.refl (s : Scan) : s.Beside s where
  zone := rfl
  place := Place.Beside.refl s.place
  found := List.forall₂_same.mpr fun _ _ => ⟨rfl, rfl, rfl, rfl⟩

/-- A step of two scans inside bodies that stay open. -/
theorem Beside.step_body {o o' p p' : Nat} {z : Zone} {opened opened' : Header} {d d' : Nat}
    {text text' : List Char} {found found' : List Block} {c : Char}
    (hstep : step ⟨o, z, .body opened d text, found⟩ c
      = ⟨p, z.next c, .body opened d' (c :: text), found⟩)
    (hstep' : step ⟨o', z, .body opened' d text', found'⟩ c
      = ⟨p', z.next c, .body opened' d' (c :: text'), found'⟩)
    (hkind : opened.kind = opened'.kind) (hname : opened.name = opened'.name)
    (hscan : (bodyScan text).Beside opened.kind (bodyScan text'))
    (hfound : List.Forall₂ Block.DeclaresAs found found') :
    (step ⟨o, z, .body opened d text, found⟩ c).Beside
      (step ⟨o', z, .body opened' d text', found'⟩ c) := by
  rw [hstep, hstep']
  refine ⟨rfl, .body d' hkind hname ?_, hfound⟩
  rw [bodyScan_cons, bodyScan_cons]
  exact hscan.step c

/-- Scans side by side read a character. -/
theorem Beside.step (h : s.Beside s') (c : Char) : (s.step c).Beside (s'.step c) := by
  obtain ⟨o, z, p, found⟩ := s
  obtain ⟨o', z', p', found'⟩ := s'
  obtain ⟨hzone, hplace, hfound⟩ := h
  obtain rfl : z = z' := hzone
  replace hplace : p.Beside p' := hplace
  cases hp : p.isOutside with
  | true =>
      have hp' : p'.isOutside = true := hplace.isOutside ▸ hp
      by_cases hz : z.isCode = true
      · rw [step_outside hz hp, step_outside hz hp']
        exact ⟨rfl, hplace.next hp o o' c, hfound⟩
      · rw [step_idle hz hp, step_idle hz hp']
        exact ⟨rfl, hplace, hfound⟩
  | false =>
      cases hplace with
      | @body opened opened' text text' d hkind hname hscan =>
          by_cases hz : z.isCode = true
          · by_cases hopen : c = '{'
            · subst hopen
              have hnext : z.next '{' = .code := Zone.next_eq_code hz (by decide) (by decide)
              exact step_body (hnext ▸ step_open hz) (hnext ▸ step_open hz) hkind hname hscan hfound
            by_cases hclose : c = '}'
            · subst hclose
              cases d with
              | zero =>
                  rw [step_finish hz, step_finish hz]
                  refine ⟨rfl, .between, List.Forall₂.cons ?_ hfound⟩
                  refine Block.declaresAs_of_tokens hkind hname ?_
                  rw [tokens, tokens, String.toList_ofList, String.toList_ofList]
                  exact hscan.result
              | succ d =>
                  have hnext : z.next '}' = .code :=
                    Zone.next_eq_code hz (by decide) (by decide)
                  exact step_body (hnext ▸ step_close hz) (hnext ▸ step_close hz) hkind hname
                    hscan hfound
            exact step_body (Scan.step_body c fun _ => ⟨hopen, hclose⟩)
              (Scan.step_body c fun _ => ⟨hopen, hclose⟩) hkind hname hscan hfound
          · exact step_body (Scan.step_body c fun hz' => absurd hz' hz)
              (Scan.step_body c fun hz' => absurd hz' hz) hkind hname hscan hfound
      | _ => cases hp

/-- Scans side by side read a text. -/
theorem Beside.run (h : s.Beside s') (text : List Char) : (s.run text).Beside (s'.run text) := by
  induction text generalizing s s' with
  | nil => exact h
  | cons c text ih => exact ih (h.step c)

/-- Scans side by side have found blocks that declare the same. -/
theorem Beside.sameBlocks (h : s.Beside s') : SameBlocks s.result s'.result := by
  obtain ⟨o, z, p, found⟩ := s
  obtain ⟨o', z', p', found'⟩ := s'
  obtain ⟨-, hplace, hfound⟩ := h
  replace hplace : p.Beside p' := hplace
  cases hplace with
  | body d hkind hname hscan => exact ⟨hkind, hname⟩
  | _ => exact List.rel_reverse hfound

end Scan

/-- Whether a text ends inside the body of a block, after a part of that body. -/
def EndsInBody (opened : Header) (before body : List Char) : Prop :=
  ∃ d : Nat, (Scan.start.run before).place = .body opened d body.reverse

/-! ## Indexes -/

/-- Blocks that declare the same make the same index. -/
theorem Index.ofBlocks_congr {found found' : List Block}
    (h : List.Forall₂ Block.DeclaresAs found found') :
    Index.ofBlocks found = Index.ofBlocks found' := by
  have hdeclared : found.filterMap Block.model? = found'.filterMap Block.model?
      ∧ found.filterMap Block.enum? = found'.filterMap Block.enum? := by
    induction h with
    | nil => exact ⟨rfl, rfl⟩
    | cons hb _ ih =>
        rw [List.filterMap_cons, List.filterMap_cons, List.filterMap_cons, List.filterMap_cons,
          hb.model?, hb.enum?, ih.1, ih.2]
        exact ⟨rfl, rfl⟩
  rw [Index.ofBlocks, Index.ofBlocks, Index.enumsOf, Index.enumsOf, hdeclared.1, hdeclared.2]

/-- Texts whose blocks declare the same have the same index, or none. -/
theorem SameBlocks.read_iff {text text' : String} (h : SameBlocks (blocks text) (blocks text'))
    (index : Index) : Index.read text = .ok index ↔ Index.read text' = .ok index := by
  rw [Index.read, Index.read]
  cases hfound : blocks text with
  | ok found =>
      cases hfound' : blocks text' with
      | ok found' =>
          rw [hfound, hfound'] at h
          have hindex : Index.ofBlocks found = Index.ofBlocks found' := Index.ofBlocks_congr h
          show Except.ok (Index.ofBlocks found) = _ ↔ Except.ok (Index.ofBlocks found') = _
          rw [hindex]
      | error opened' =>
          rw [hfound, hfound'] at h
          cases h
  | error opened =>
      cases hfound' : blocks text' with
      | ok found' =>
          rw [hfound, hfound'] at h
          cases h
      | error opened' => exact ⟨fun h => (by cases h), fun h => (by cases h)⟩

end Stencil.Schema
