import Stencil.Proofs.Schema.Alike
import Stencil.Proofs.Schema.BlockSpans

/-! # Literals in attributes

    A string literal in an attribute is a part of its token, whatever stands in it:
    braces, brackets, slashes, at signs and keywords do nothing there.  The mark of
    relations does: it is looked for in the whole text of an attribute, so that a literal
    can make its field a relation (`literal_makes_relation`).

    Texts that differ in nothing but such literals are `Requoted`.  The payoff is
    `read_requoted`: they declare the same, if the literals agree about that mark. -/

namespace Stencil.Schema

/-- Whether a text may stand in a literal as it is. -/
def Unescaped (cs : List Char) : Prop :=
  '"' ∉ cs ∧ '\\' ∉ cs

instance (cs : List Char) : Decidable (Unescaped cs) :=
  inferInstanceAs (Decidable (_ ∧ _))

theorem Unescaped.quotable {cs : List Char} (h : Unescaped cs) : Quotable cs := by
  induction cs with
  | nil => exact Quotable.nil
  | cons c cs ih =>
      obtain ⟨hquote, hslash⟩ := h
      rw [List.mem_cons, not_or] at hquote hslash
      exact Quotable.plain (Ne.symm hquote.1) (Ne.symm hslash.1) (ih ⟨hquote.2, hslash.2⟩)

variable {a b before body text text' : List Char}

/-! ## Literals in a token scan -/

namespace TokenScan

variable {kind : BlockKind} {finished : List String} {pending : List Char} {depth : Nat}
  {s s' : TokenScan}

/-- A slash that waits is part of the token when a literal follows. -/
theorem run_slash_quote (cs : List Char) :
    run ⟨finished, pending, depth, .slash⟩ ('"' :: cs)
      = run ⟨finished, '/' :: pending, depth, .code⟩ ('"' :: cs) := rfl

/-- Two literals that agree about relations, in attributes that are alike. -/
theorem Beside.code_literal (h : s.Beside kind s') (hcode : s.zone = .code)
    (hat : s.pending.getLast? = some '@') (ha : Unescaped a) (hb : Unescaped b)
    (hmarks : marksRelation a = marksRelation b) :
    (s.run ('"' :: (a ++ ['"']))).Beside kind (s'.run ('"' :: (b ++ ['"']))) := by
  obtain ⟨finished, pending, depth, zone⟩ := s
  obtain ⟨finished', pending', depth', zone'⟩ := s'
  obtain ⟨hfinished, -, hpending, hdepth, hzone⟩ := h
  obtain rfl : zone = .code := hcode
  obtain rfl : Zone.code = zone' := hzone
  rw [run_literal ha.quotable, run_literal hb.quotable]
  refine ⟨hfinished, by simp, fun more => ?_, hdepth, rfl⟩
  -- the second attribute starts with an at sign as the first one does
  have hfront : pending'.reverse.head? = some '@' := by
    have hfirst : isAttribute (String.ofList (pending.reverse ++ [])) = true := by
      rw [isAttribute, String.toList_ofList, List.append_nil, List.head?_reverse]
      exact decide_eq_true hat
    rw [(hpending []).isAttribute, isAttribute, String.toList_ofList, List.append_nil] at hfirst
    exact of_decide_eq_true hfirst
  have hcut : ∀ c : List Char, marksRelation (pending'.reverse ++ '"' :: (c ++ '"' :: more))
      = (marksRelation pending'.reverse || (marksRelation c || marksRelation more)) := by
    intro c
    rw [marksRelation_append_cons (by decide), marksRelation_append_cons (by decide)]
  have halike : Alike kind (String.ofList (pending'.reverse ++ '"' :: (a ++ '"' :: more)))
      (String.ofList (pending'.reverse ++ '"' :: (b ++ '"' :: more))) :=
    alike_append hfront (fun h => absurd (Option.some.inj h) (by decide))
      (fun h => absurd (Option.some.inj h) (by decide)) (by rw [hcut, hcut, hmarks])
  simp only [List.reverse_cons, List.reverse_append, List.reverse_reverse, List.append_assoc,
    List.cons_append, List.nil_append]
  exact (hpending _).trans halike

/-- Two literals that agree about relations, wherever an attribute goes on. -/
theorem Beside.literal (h : s.Beside kind s') (hcode : s.zone.isCode = true)
    (hat : s.pending.getLast? = some '@') (ha : Unescaped a) (hb : Unescaped b)
    (hmarks : marksRelation a = marksRelation b) :
    (s.run ('"' :: (a ++ ['"']))).Beside kind (s'.run ('"' :: (b ++ ['"']))) := by
  cases hzone : s.zone with
  | code => exact h.code_literal hzone hat ha hb hmarks
  | slash =>
      have hpushed := (h.withZone .code).push '/'
      obtain ⟨finished, pending, depth, zone⟩ := s
      obtain ⟨finished', pending', depth', zone'⟩ := s'
      obtain rfl : zone = .slash := hzone
      obtain rfl : Zone.slash = zone' := h.zone
      rw [run_slash_quote, run_slash_quote]
      refine hpushed.code_literal rfl ?_ ha hb hmarks
      exact getLast?_append_cons [] pending '/' hat
  | _ => rw [hzone] at hcode; cases hcode

end TokenScan

/-! ## Literals in a text -/

/-- Whether a text ends in an attribute of a body, where a quote opens a literal. -/
def EndsInAttribute (before : List Char) : Prop :=
  ∃ (opened : Header) (body : List Char), EndsInBody opened before body
    ∧ (zoneAfter before).isCode = true ∧ (TokenScan.start.run body).zone.isCode = true
    ∧ (TokenScan.start.run body).pending.getLast? = some '@'

/-- Whether two texts, after a text that both start with, differ in nothing but literals
    of attributes, each of them changed as it is allowed. -/
inductive Requoted (allowed : List Char → List Char → Prop) :
    List Char → List Char → List Char → Prop where
  | done {before : List Char} : Requoted allowed before [] []
  | same {before text text' : List Char} (c : Char) :
      Requoted allowed (before ++ [c]) text text' →
      Requoted allowed before (c :: text) (c :: text')
  | literal {before text text' a b : List Char} :
      EndsInAttribute before → Unescaped a → Unescaped b → allowed a b →
      Requoted allowed (before ++ '"' :: (a ++ ['"'])) text text' →
      Requoted allowed before ('"' :: (a ++ '"' :: text)) ('"' :: (b ++ '"' :: text'))

variable {allowed : List Char → List Char → Prop}

theorem Requoted.same_append {part : List Char} (h : Requoted allowed (before ++ part) text text') :
    Requoted allowed before (part ++ text) (part ++ text') := by
  induction part generalizing before with
  | nil =>
      rw [List.append_nil] at h
      exact h
  | cons c part ih =>
      refine Requoted.same c (ih ?_)
      rw [List.append_assoc]
      exact h

theorem Requoted.refl (before text : List Char) : Requoted allowed before text text := by
  have h : Requoted allowed before (text ++ []) (text ++ []) := .same_append .done
  rw [List.append_nil] at h
  exact h

namespace Scan

/-- Literals of attributes that agree about relations keep two scans side by side. -/
theorem Beside.literal {s s' : Scan} (h : s.Beside s') (hs : s = Scan.start.run before)
    (hends : EndsInAttribute before) (ha : Unescaped a) (hb : Unescaped b)
    (hmarks : marksRelation a = marksRelation b) :
    (s.run ('"' :: (a ++ ['"']))).Beside (s'.run ('"' :: (b ++ ['"']))) := by
  obtain ⟨opened, body, ⟨d, hplace⟩, hcode, htokens, hat⟩ := hends
  have hz : s.zone.isCode = true := by rw [hs, (Scan.keeps before).zone, hcode]
  rw [← hs] at hplace
  obtain ⟨o, z, p, found⟩ := s
  obtain ⟨o', z', p', found'⟩ := s'
  obtain ⟨hzone, hbeside, hfound⟩ := h
  obtain rfl : z = z' := hzone
  obtain rfl : p = .body opened d body.reverse := hplace
  obtain _ | _ | _ | _ | _ | @⟨_, opened', _, text', _, hkind, hname, hscan⟩ := hbeside
  rw [run_literal ha.quotable hz, run_literal hb.quotable hz]
  refine ⟨rfl, .body d hkind hname ?_, hfound⟩
  rw [bodyScan_append, bodyScan_append]
  rw [bodyScan, List.reverse_reverse] at hscan ⊢
  exact hscan.literal htokens hat ha hb hmarks

end Scan

/-- Requoted texts are read side by side. -/
theorem Requoted.beside (h : Requoted (fun a b => marksRelation a = marksRelation b)
      before text text') {s' : Scan} (hs : (Scan.start.run before).Beside s') :
    ((Scan.start.run before).run text).Beside (s'.run text') := by
  induction h generalizing s' with
  | done => exact hs
  | @same before text text' c _ ih =>
      rw [Scan.run_cons, Scan.run_cons]
      have hnext : (Scan.start.run (before ++ [c])).Beside (s'.step c) := by
        rw [Scan.run_append]
        exact hs.step c
      have hstep := ih hnext
      rw [Scan.run_append] at hstep
      exact hstep
  | @literal before text text' a b hends ha hb hmarks _ ih =>
      have hcut : ∀ c text : List Char,
          '"' :: (c ++ '"' :: text) = '"' :: (c ++ ['"']) ++ text := by
        intro c text
        rw [List.cons_append, List.append_assoc, List.singleton_append]
      have hliteral := hs.literal rfl hends ha hb hmarks
      rw [← Scan.run_append] at hliteral
      have hrest := ih hliteral
      rw [Scan.run_append Scan.start] at hrest
      rw [hcut a, hcut b, Scan.run_append _ _ text, Scan.run_append _ _ text']
      exact hrest

/-- **Literals are inert.**  Texts that differ in nothing but the literals of attributes
    declare the same, or neither can be read, provided that a literal has the mark of
    relations in both texts or in none. -/
theorem read_requoted
    (h : Requoted (fun a b => marksRelation a = marksRelation b) [] text text') :
    SameBlocks (blocks (String.ofList text)) (blocks (String.ofList text'))
      ∧ ∀ index : Index, Index.read (String.ofList text) = .ok index
          ↔ Index.read (String.ofList text') = .ok index := by
  have hsame : SameBlocks (blocks (String.ofList text)) (blocks (String.ofList text')) := by
    rw [blocks, blocks, String.toList_ofList, String.toList_ofList]
    exact (h.beside (Scan.Beside.refl _)).sameBlocks
  exact ⟨hsame, hsame.read_iff⟩

/-- A mapped name with a brace, a comment, a keyword and an attribute in it, and an empty
    one. -/
theorem read_requoted_map :
    EndsInAttribute "model A\x7ba Int@map(".toList
      ∧ Index.read (String.ofList ("model A\x7ba Int@map(".toList
          ++ '"' :: ("\x7d // model [ @id".toList ++ '"' :: ")b Int\x7d".toList)))
        = .ok (Index.ofBlocks [⟨⟨.model, "A", 0⟩, "a Int@map(\"\")b Int"⟩]) := by
  have hends : EndsInAttribute "model A\x7ba Int@map(".toList :=
    ⟨⟨.model, "A", 0⟩, "a Int@map(".toList, ⟨0, rfl⟩, by cbv, by cbv, by cbv⟩
  have hrequoted : Requoted (fun a b => marksRelation a = marksRelation b) []
      ("model A\x7ba Int@map(".toList
        ++ '"' :: ("\x7d // model [ @id".toList ++ '"' :: ")b Int\x7d".toList))
      ("model A\x7ba Int@map(".toList ++ '"' :: ([] ++ '"' :: ")b Int\x7d".toList)) :=
    .same_append (.literal hends (by decide) (by decide) (by cbv) (.refl _ _))
  exact ⟨hends, ((read_requoted hrequoted).2 _).mpr rfl⟩

/-- A mapped name may make its field a relation: the field is lost, though it carries no
    such attribute. -/
theorem literal_makes_relation :
    Requoted (fun _ _ => True) []
        ("model A\x7ba Int@map(".toList ++ '"' :: ("x".toList ++ '"' :: ")\x7d".toList))
        ("model A\x7ba Int@map(".toList ++ '"' :: ("@relation(".toList ++ '"' :: ")\x7d".toList))
      ∧ (Index.read "model A\x7ba Int@map(\"x\")\x7d").map
          (fun index => (index.model? "A").map Model.toList) = .ok (some [("a", "Int")])
      ∧ (Index.read "model A\x7ba Int@map(\"@relation(\")\x7d").map
          (fun index => (index.model? "A").map Model.toList) = .ok (some []) := by
  have hends : EndsInAttribute "model A\x7ba Int@map(".toList :=
    ⟨⟨.model, "A", 0⟩, "a Int@map(".toList, ⟨0, rfl⟩, by cbv, by cbv, by cbv⟩
  exact ⟨.same_append (.literal hends (by decide) (by decide) trivial (.refl _ _)), rfl, rfl⟩

end Stencil.Schema
