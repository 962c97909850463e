import Stencil.Proofs.Schema.Alike
import Stencil.Proofs.Schema.BlockSpans

/-! # Comments in bodies

    Outside of brackets a comment in a body is dropped.  In brackets it is part of the
    token that holds it, so that what stands in it may close the brackets or open a
    literal (`comment_closes_attribute`).  If it does nothing of that kind, it is of no
    account in an attribute, unless it has the mark of relations in it, nor in a braced
    run that is passed over.

    The payoff is `read_without_comment`: a comment that passes may be taken out, and the
    blocks declare what they did. -/

namespace Stencil.Schema

/-! ## Comments in a token scan -/

namespace TokenScan

/-- Whether a comment, from its slashes to the end of its line, leaves no trace in what
    a token scan reads after it. -/
inductive Passes (kind : BlockKind) (s : TokenScan) (comment : List Char) : Prop where
  /-- Outside of brackets. -/
  | outside : s.zone = .code → s.depth = 0 → Passes kind s comment
  /-- In brackets, if reading the comment leads back to where the scan was, and what the
      open token says is of no account. -/
  | inside : s.zone = .code → 0 < s.depth →
      s.run comment = { s with pending := comment.reverse ++ s.pending } →
      s.pending.getLast? = some '@' ∧ marksRelation comment = false
        ∨ s.pending.getLast? = some '{' ∧ kind ≠ .enum →
      Passes kind s comment

variable {kind : BlockKind} {s : TokenScan} {finished : List String}
  {pending remark : List Char} {depth : Nat}

/-- In brackets, a text without quotes and brackets leads back to where the scan was. -/
theorem run_plain {cs : List Char} (hdepth : 0 < depth)
    (h : ∀ c ∈ cs, c ≠ '"' ∧ isOpening c = false ∧ isClosing c = false) :
    run ⟨finished, pending, depth, .code⟩ cs = ⟨finished, cs.reverse ++ pending, depth, .code⟩ := by
  induction cs generalizing pending with
  | nil => rfl
  | cons c cs ih =>
      obtain ⟨hq, ho, hc⟩ := h c (List.mem_cons_self ..)
      rw [run_cons, step_code fun _ => hdepth,
        code_push hq (fun _ => hdepth) ho hc (fun _ => hdepth),
        ih fun d hd => h d (List.mem_cons_of_mem _ hd), List.reverse_cons, List.append_assoc]
      rfl

/-- Outside of brackets, a comment and the newline after it are read as the newline
    alone. -/
theorem run_dropped (hremark : '\n' ∉ remark) :
    run ⟨finished, pending, 0, .code⟩ ('/' :: '/' :: (remark ++ ['\n']))
      = run ⟨finished, pending, 0, .code⟩ ['\n'] := by
  rw [← List.cons_append, ← List.cons_append, run_append, run_comment hremark, run_cons, run_cons,
    step_blank (by decide), close_eq]
  rfl

/-- A comment without the mark of relations may stand in an attribute or not. -/
theorem alike_of_comment {front : List Char} (hfront : front.head? = some '@')
    (hmarks : marksRelation ('/' :: '/' :: remark) = false) (more : List Char) :
    Alike kind (String.ofList (front ++ '/' :: '/' :: (remark ++ '\n' :: more)))
      (String.ofList (front ++ '\n' :: more)) := by
  have htail : marksRelation ('/' :: remark) = false := by
    have hcut := marksRelation_append_cons (c := '/') (by decide) [] ('/' :: remark)
    rw [List.nil_append, hmarks] at hcut
    exact (Bool.or_eq_false_iff.mp hcut.symm).2
  refine alike_append hfront (fun h => absurd (Option.some.inj h) (by decide))
    (fun h => absurd (Option.some.inj h) (by decide)) ?_
  have hcut : front ++ '/' :: '/' :: (remark ++ '\n' :: more)
      = (front ++ '/' :: '/' :: remark) ++ '\n' :: more := by
    rw [List.append_assoc, List.cons_append, List.cons_append]
  rw [hcut, marksRelation_append_cons (c := '\n') (by decide),
    marksRelation_append_cons (c := '/') (by decide), htail, Bool.or_false,
    marksRelation_append_cons (c := '\n') (by decide)]

/-- In brackets, a comment that leads back to where the scan was makes a token that is
    alike. -/
theorem beside_of_inside (hdepth : 0 < depth)
    (hstays : run ⟨finished, pending, depth, .code⟩ ('/' :: '/' :: remark)
      = ⟨finished, ('/' :: '/' :: remark).reverse ++ pending, depth, .code⟩)
    (htoken : pending.getLast? = some '@' ∧ marksRelation ('/' :: '/' :: remark) = false
      ∨ pending.getLast? = some '{' ∧ kind ≠ .enum) :
    Beside kind (run ⟨finished, pending, depth, .code⟩ ('/' :: '/' :: (remark ++ ['\n'])))
      (run ⟨finished, pending, depth, .code⟩ ['\n']) := by
  have hline : ∀ p : List Char, run ⟨finished, p, depth, .code⟩ ['\n']
      = ⟨finished, '\n' :: p, depth, .code⟩ := fun p =>
    run_plain hdepth fun c hc => List.mem_singleton.mp hc ▸ by decide
  rw [← List.cons_append, ← List.cons_append, run_append, hstays, hline, hline]
  refine ⟨List.forall₂_same.mpr fun _ _ => .same _, rfl, fun more => ?_, rfl, rfl⟩
  simp only [List.reverse_cons, List.reverse_append, List.reverse_reverse, List.append_assoc,
    List.cons_append, List.nil_append]
  rcases htoken with ⟨hat, hmarks⟩ | ⟨hbrace, hkind⟩
  · exact alike_of_comment (List.head?_reverse.trans hat) hmarks more
  · exact alike_append_braced hkind (List.head?_reverse.trans hbrace)

/-- A comment that passes and the newline after it lead side by side with the newline
    alone. -/
theorem Passes.beside (h : s.Passes kind ('/' :: '/' :: remark)) (hremark : '\n' ∉ remark) :
    (s.run ('/' :: '/' :: (remark ++ ['\n']))).Beside kind (s.run ['\n']) := by
  obtain ⟨finished, pending, depth, zone⟩ := s
  cases h with
  | outside hzone hdepth =>
      obtain rfl : zone = .code := hzone
      obtain rfl : depth = 0 := hdepth
      rw [run_dropped hremark]
      exact Beside.refl _ _
  | inside hzone hdepth hstays htoken =>
      obtain rfl : zone = .code := hzone
      exact beside_of_inside hdepth hstays htoken

end TokenScan

/-! ## Comments in a text -/

variable {opened : Header} {before body remark : List Char}

/-- A comment in an open body, and the newline after it, are collected; the scan is where
    it would be after the newline alone. -/
theorem beside_of_comment (hbody : EndsInBody opened before body) (hcode : zoneAfter before = .code)
    (hremark : '\n' ∉ remark)
    (hpass : (TokenScan.start.run body).Passes opened.kind ('/' :: '/' :: remark)) :
    (Scan.start.run (before ++ '/' :: '/' :: (remark ++ ['\n']))).Beside
      (Scan.start.run (before ++ ['\n'])) := by
  obtain ⟨d, hplace⟩ := hbody
  have hzone : (Scan.start.run before).zone = .code := by rw [(Scan.keeps before).zone, hcode]
  rw [Scan.run_append, Scan.run_append]
  generalize Scan.start.run before = s at hplace hzone
  obtain ⟨o, z, p, found⟩ := s
  obtain rfl : z = .code := hzone
  obtain rfl : p = .body opened d body.reverse := hplace
  have hslashes : Scan.run ⟨o, .code, .body opened d body.reverse, found⟩ ['/', '/']
      = ⟨o + 1 + 1, .comment, .body opened d ('/' :: '/' :: body.reverse), found⟩ := rfl
  have hline : ∀ (o : Nat) (z : Zone) (text : List Char), z.next '\n' = .code →
      Scan.run ⟨o, z, .body opened d text, found⟩ ['\n']
        = ⟨o + 1, .code, .body opened d ('\n' :: text), found⟩ := by
    intro o z text hz
    rw [Scan.run_cons, Scan.step_body '\n' fun _ => by decide, hz]
    rfl
  have hcomment : '/' :: '/' :: (remark ++ ['\n']) = ['/', '/'] ++ (remark ++ ['\n']) := rfl
  rw [hcomment, Scan.run_append, hslashes, Scan.run_append, Scan.run_remark hremark,
    hline _ _ _ rfl, hline _ _ _ rfl]
  refine ⟨rfl, .body d rfl rfl ?_, List.forall₂_same.mpr fun _ _ => ⟨rfl, rfl, rfl, rfl⟩⟩
  have hscan := hpass.beside hremark
  rw [← TokenScan.run_append, ← TokenScan.run_append] at hscan
  simp only [bodyScan, List.reverse_cons, List.reverse_append, List.reverse_reverse,
    List.append_assoc, List.cons_append, List.nil_append]
  exact hscan

/-- **Comments are inert.**  A comment that starts in the body of a block, outside of
    literals and other comments, and passes the token scan there, may be taken out of the
    text up to the newline that ends it: every block declares what it did. -/
theorem read_without_comment (hbody : EndsInBody opened before body)
    (hcode : zoneAfter before = .code) (hremark : '\n' ∉ remark)
    (hpass : (TokenScan.start.run body).Passes opened.kind ('/' :: '/' :: remark))
    (after : List Char) :
    SameBlocks
        (blocks (String.ofList (before ++ '/' :: '/' :: (remark ++ '\n' :: after))))
        (blocks (String.ofList (before ++ '\n' :: after)))
      ∧ ∀ index : Index,
        Index.read (String.ofList (before ++ '/' :: '/' :: (remark ++ '\n' :: after))) = .ok index
          ↔ Index.read (String.ofList (before ++ '\n' :: after)) = .ok index := by
  have hsame : SameBlocks
      (blocks (String.ofList (before ++ '/' :: '/' :: (remark ++ '\n' :: after))))
      (blocks (String.ofList (before ++ '\n' :: after))) := by
    have hrun := ((beside_of_comment hbody hcode hremark hpass).run after).sameBlocks
    rw [← Scan.run_append, ← Scan.run_append] at hrun
    rw [blocks, blocks, String.toList_ofList, String.toList_ofList]
    simpa only [List.append_assoc, List.cons_append, List.nil_append] using hrun
  exact ⟨hsame, hsame.read_iff⟩

/-- A remark in the parentheses of an attribute, one in a braced run, and one at the end
    of a line that has everything in it. -/
theorem read_without_comment_places :
    (EndsInBody ⟨.model, "A", 0⟩ "model A\x7ba Int@map(".toList "a Int@map(".toList
        ∧ Index.read (String.ofList ("model A\x7ba Int@map(".toList
            ++ '/' :: '/' :: ("its name".toList ++ '\n' :: "1)b Int\x7d".toList)))
          = .ok (Index.ofBlocks [⟨⟨.model, "A", 0⟩, "a Int@map(\n1)b Int"⟩]))
      ∧ (EndsInBody ⟨.model, "A", 0⟩ "model A\x7b\x7b".toList "\x7b".toList
        ∧ Index.read (String.ofList ("model A\x7b\x7b".toList
            ++ '/' :: '/' :: ("@relation(i)".toList ++ '\n' :: "\x7db Int\x7d".toList)))
          = .ok (Index.ofBlocks [⟨⟨.model, "A", 0⟩, "\x7b\n\x7db Int"⟩]))
      ∧ EndsInBody ⟨.enum, "E", 0⟩ "enum E\x7bA ".toList "A ".toList
        ∧ Index.read (String.ofList ("enum E\x7bA ".toList
            ++ '/' :: '/' :: (" \x7d\" @relation(".toList ++ '\n' :: "B\x7d".toList)))
          = .ok (Index.ofBlocks [⟨⟨.enum, "E", 0⟩, "A \nB"⟩]) := by
  have hparens : EndsInBody ⟨.model, "A", 0⟩ "model A\x7ba Int@map(".toList
      "a Int@map(".toList := ⟨0, rfl⟩
  have hbraces : EndsInBody ⟨.model, "A", 0⟩ "model A\x7b\x7b".toList "\x7b".toList :=
    ⟨1, rfl⟩
  have hline : EndsInBody ⟨.enum, "E", 0⟩ "enum E\x7bA ".toList "A ".toList := ⟨0, rfl⟩
  refine ⟨⟨hparens, ?_⟩, ⟨hbraces, ?_⟩, hline, ?_⟩
  · have hpass : (TokenScan.start.run "a Int@map(".toList).Passes .model
        ('/' :: '/' :: "its name".toList) :=
      .inside (by cbv) (by decide) (by cbv) (Or.inl ⟨by cbv, by cbv⟩)
    refine ((read_without_comment hparens (by cbv) (by decide) hpass _).2 _).mpr ?_
    rfl
  · have hpass : (TokenScan.start.run "\x7b".toList).Passes .model
        ('/' :: '/' :: "@relation(i)".toList) :=
      .inside (by cbv) (by decide) (by cbv) (Or.inr ⟨by cbv, by decide⟩)
    refine ((read_without_comment hbraces (by cbv) (by decide) hpass _).2 _).mpr ?_
    rfl
  · have hpass : (TokenScan.start.run "A ".toList).Passes .enum
        ('/' :: '/' :: " \x7d\" @relation(".toList) := .outside (by cbv) (by cbv)
    refine ((read_without_comment hline (by cbv) (by decide) hpass _).2 _).mpr ?_
    rfl

/-- What is declared by the blocks of a text that has been scanned. -/
theorem read_of_toOption {text : String} {found : List Block}
    (h : (blocks text).toOption = some found) : Index.read text = .ok (Index.ofBlocks found) := by
  rw [Index.read]
  cases hblocks : blocks text with
  | error opened => rw [hblocks] at h; cases h
  | ok _ => rw [hblocks] at h; cases h; rfl

/-- A comment in the parentheses of an attribute may close them: what stands after the
    comment is then read as a field of its own, and the field after the attribute is lost.
    Without the comment there is no such field. -/
theorem comment_closes_attribute :
    EndsInBody ⟨.model, "A", 0⟩ "model A\x7b a Int @default(".toList " a Int @default(".toList
      ∧ zoneAfter "model A\x7b a Int @default(".toList = .code ∧ '\n' ∉ " :)".toList
      ∧ (Index.read (String.ofList ("model A\x7b a Int @default(".toList
            ++ '/' :: '/' :: (" :)".toList ++ '\n' :: "1) b Int\x7d".toList)))).map
          (fun index => (index.model? "A").map Model.toList)
        = .ok (some [("a", "Int"), ("1)", "b")])
      ∧ (Index.read (String.ofList ("model A\x7b a Int @default(".toList
            ++ '\n' :: "1) b Int\x7d".toList))).map
          (fun index => (index.model? "A").map Model.toList)
        = .ok (some [("a", "Int"), ("b", "Int")]) := by
  have hbroken : (blocks (String.ofList ("model A\x7b a Int @default(".toList
        ++ '/' :: '/' :: (" :)".toList ++ '\n' :: "1) b Int\x7d".toList)))).toOption
      = some [⟨⟨.model, "A", 0⟩, " a Int @default(// :)\n1) b Int"⟩] := by decide +kernel
  have hwhole : (blocks (String.ofList ("model A\x7b a Int @default(".toList
        ++ '\n' :: "1) b Int\x7d".toList))).toOption
      = some [⟨⟨.model, "A", 0⟩, " a Int @default(\n1) b Int"⟩] := by decide +kernel
  refine ⟨⟨0, rfl⟩, by cbv, by decide, ?_, ?_⟩
  · rw [read_of_toOption hbroken]
    exact congrArg Except.ok (by decide +kernel)
  · rw [read_of_toOption hwhole]
    exact congrArg Except.ok (by decide +kernel)

end Stencil.Schema
