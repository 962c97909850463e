import Mathlib.Data.List.Forall2
import Mathlib.Data.List.Induction
import Stencil.Proofs.Schema.BlockSpans
import Stencil.Proofs.Schema.Marks

/-! # What a block scan does not see

    A literal hides what stands in it, and a comment what stands after its slashes, but
    for the bytes that may end them or take another one along.  When every hidden byte is
    veiled, a tilde put in its place, and every byte of a character of several bytes, too,
    the text goes on being scanned as before: the headers are the same ones, and the
    bodies stand between the same offsets (`abreast_veiled`).

    Texts of the same length that differ in nothing but hidden bytes are the same text
    once they are veiled.  The payoff is `sameExtents_of_hidden`: strings and comments
    never steer a block scan. -/

namespace Stencil.Schema

open Stencil.Text (isBlank)
open Positions (IsHigh marks marksOf)

variable {c : Char} {z : Zone} {p p' : Place} {t t' v m m' : List Char} {n o : Nat}
  {found found' : List Block}

/-! ## Hidden bytes -/

/-- Whether a zone hides a byte: all of a literal but quotes and backslashes, all of a
    comment but newlines. -/
def Zone.Hides : Zone → Char → Prop
  | .code, _ => False
  | .slash, _ => False
  | .literal, c => c ≠ '"' ∧ c ≠ '\\'
  | .escape, c => c ≠ '"' ∧ c ≠ '\\'
  | .comment, c => c ≠ '\n'

instance (z : Zone) (c : Char) : Decidable (z.Hides c) :=
  match z with
  | .code => inferInstanceAs (Decidable False)
  | .slash => inferInstanceAs (Decidable False)
  | .literal => inferInstanceAs (Decidable (_ ∧ _))
  | .escape => inferInstanceAs (Decidable (_ ∧ _))
  | .comment => inferInstanceAs (Decidable (_ ≠ _))

/-- Whether the bytes of two texts differ only where literals and comments hide both. -/
structure DifferHidden (m m' : List Char) : Prop where
  length : m.length = m'.length
  hidden : ∀ (i : Nat) (h : i < m.length) (h' : i < m'.length), m[i] ≠ m'[i] →
    (zoneAfter (m.take i)).Hides m[i] ∧ (zoneAfter (m.take i)).Hides m'[i]

/-! ## Veils -/

/-- What is left of a byte when all that has no role is veiled. -/
def Zone.veil : Zone → Char → Char
  | .code, c => if IsHigh c then '~' else c
  | .slash, c => if IsHigh c then '~' else c
  | .literal, c => if c = '"' ∨ c = '\\' then c else '~'
  | .escape, _ => '~'
  | .comment, c => if c = '\n' then c else '~'

/-- The bytes of a text, veiled from a zone on. -/
def veiled (z : Zone) : List Char → List Char
  | [] => []
  | c :: m => z.veil c :: veiled (z.next c) m

theorem Zone.veil_of_hides (h : z.Hides c) : z.veil c = '~' := by
  cases z with
  | code => cases h
  | slash => cases h
  | literal => exact if_neg fun hc => hc.elim h.1 h.2
  | escape => rfl
  | comment => exact if_neg h

theorem Zone.veil_of_isHigh (hc : IsHigh c) (z : Zone) : z.veil c = '~' := by
  have hquote : ¬ (c = '"' ∨ c = '\\') :=
    fun h => h.elim (hc.ne (by decide)) (hc.ne (by decide))
  cases z with
  | code => exact if_pos hc
  | slash => exact if_pos hc
  | literal => exact if_neg hquote
  | escape => rfl
  | comment => exact if_neg (hc.ne (by decide))

/-- Bytes of characters of several bytes lead to the same zone as a tilde. -/
theorem Zone.next_of_isHigh (hc : IsHigh c) (z : Zone) : z.next c = z.next '~' := by
  have hquote : c ≠ '"' := hc.ne (by decide)
  have hslash : c ≠ '/' := hc.ne (by decide)
  have hback : c ≠ '\\' := hc.ne (by decide)
  have hline : c ≠ '\n' := hc.ne (by decide)
  cases z with
  | code => rw [Zone.next, if_neg hquote, if_neg hslash]; rfl
  | slash => rw [Zone.next, if_neg hquote, if_neg hslash]; rfl
  | literal => rw [Zone.next, if_neg hquote, if_neg hback]; rfl
  | escape => rfl
  | comment => rw [Zone.next, if_neg hline]; rfl

/-- A veil leads to the zone that the byte under it leads to. -/
theorem Zone.next_veil (z : Zone) (c : Char) : z.next (z.veil c) = z.next c := by
  by_cases hc : IsHigh c
  · rw [Zone.veil_of_isHigh hc, Zone.next_of_isHigh hc]
  cases z with
  | code => rw [Zone.veil, if_neg hc]
  | slash => rw [Zone.veil, if_neg hc]
  | literal =>
      by_cases hmark : c = '"' ∨ c = '\\'
      · rw [Zone.veil, if_pos hmark]
      · rw [not_or] at hmark
        rw [Zone.veil, if_neg (not_or.mpr hmark), Zone.next, Zone.next, if_neg hmark.1,
          if_neg hmark.2]
        rfl
  | escape => rfl
  | comment =>
      by_cases hline : c = '\n'
      · rw [Zone.veil, if_pos hline]
      · rw [Zone.veil, if_neg hline, Zone.next, Zone.next, if_neg hline]
        rfl

/-- One tilde leads where several do. -/
theorem Zone.next_tilde (z : Zone) : (z.next '~').next '~' = z.next '~' := by
  cases z <;> rfl

theorem Zone.isCode_next_tilde (z : Zone) : (z.next '~').isCode = z.isCode := by
  cases z <;> rfl

theorem veiled_append (z : Zone) (m m' : List Char) :
    veiled z (m ++ m') = veiled z m ++ veiled (z.after m) m' := by
  induction m generalizing z with
  | nil => rfl
  | cons c m ih =>
      rw [List.cons_append, veiled, ih, veiled]
      rfl

/-- Bytes that differ only where they are hidden are the same under their veils. -/
theorem veiled_eq (hlength : m.length = m'.length)
    (hhidden : ∀ (i : Nat) (h : i < m.length) (h' : i < m'.length), m[i] ≠ m'[i] →
      (z.after (m.take i)).Hides m[i] ∧ (z.after (m.take i)).Hides m'[i]) :
    veiled z m = veiled z m' := by
  induction m generalizing z m' with
  | nil => rw [List.length_eq_zero_iff.mp hlength.symm]
  | cons c m ih =>
      obtain ⟨c', m', rfl⟩ := List.exists_cons_of_length_eq_add_one hlength.symm
      have hveil : z.veil c = z.veil c' := by
        by_cases hc : c = c'
        · rw [hc]
        · have hhides : z.Hides c ∧ z.Hides c' :=
            hhidden 0 (Nat.zero_lt_succ _) (Nat.zero_lt_succ _) hc
          rw [Zone.veil_of_hides hhides.1, Zone.veil_of_hides hhides.2]
      have hnext : z.next c = z.next c' := by
        rw [← Zone.next_veil z c, hveil, Zone.next_veil]
      rw [veiled, veiled, hveil, hnext]
      refine congrArg _ (ih (Nat.succ.inj hlength) fun i h h' hne => ?_)
      have hlater := hhidden (i + 1) (Nat.succ_lt_succ h) (Nat.succ_lt_succ h') hne
      rw [← hnext]
      exact hlater

/-! ## Veils over characters -/

/-- High bytes, one at least, lead where a tilde does, and are veiled one by one. -/
theorem veiled_of_isHigh (hhigh : ∀ d ∈ m, IsHigh d) (z : Zone) :
    veiled z m = List.replicate m.length '~' ∧ (m ≠ [] → z.after m = z.next '~') := by
  induction m generalizing z with
  | nil => exact ⟨rfl, fun h => absurd rfl h⟩
  | cons d m ih =>
      have hd : IsHigh d := hhigh d (List.mem_cons_self ..)
      obtain ⟨hveiled, hafter⟩ := ih (fun e he => hhigh e (List.mem_cons_of_mem _ he)) (z.next d)
      refine ⟨?_, fun _ => ?_⟩
      · rw [veiled, Zone.veil_of_isHigh hd, hveiled]
        rfl
      · show (z.next d).after m = z.next '~'
        by_cases hm : m = []
        · rw [hm]
          exact Zone.next_of_isHigh hd z
        · rw [hafter hm, Zone.next_of_isHigh hd, Zone.next_tilde]

/-- Whether a character does in a zone what a tilde does: it stands there. -/
structure Roleless (z : Zone) (c : Char) : Prop where
  next : z.next c = z.next '~'
  name : z.isCode = true → isNameChar c = false
  blank : z.isCode = true → isBlank c = false
  brace : z.isCode = true → c ≠ '{' ∧ c ≠ '}'

theorem roleless_tilde (z : Zone) : Roleless z '~' :=
  ⟨rfl, fun _ => rfl, fun _ => rfl, fun _ => by decide⟩

/-- Only what has no role is veiled. -/
theorem roleless_of_veil (h : z.veil c ≠ c) : z.veil c = '~' ∧ Roleless z c := by
  have hveil : z.veil c = '~' := by
    cases z with
    | escape => rfl
    | _ =>
        rw [Zone.veil] at h ⊢
        split at h
        all_goals first | exact absurd rfl h | exact if_pos ‹_› | exact if_neg ‹_›
  have hhigh : z.isCode = true → IsHigh c := by
    intro hz
    refine Classical.byContradiction fun hc => h ?_
    cases z with
    | code => exact if_neg hc
    | slash => exact if_neg hc
    | _ => cases hz
  refine ⟨hveil, by rw [← hveil, Zone.next_veil], fun hz => (hhigh hz).isNameChar,
    fun hz => (hhigh hz).isBlank, fun hz => ⟨(hhigh hz).ne (by decide), (hhigh hz).ne (by decide)⟩⟩

/-- The bytes of a character lead where it does; veiled, they are the character or as many
    tildes as it has bytes. -/
theorem veiled_marksOf_singleton (z : Zone) (c : Char) :
    z.after (marksOf [c]) = z.next c
      ∧ (veiled z (marksOf [c]) = [c]
        ∨ veiled z (marksOf [c]) = List.replicate c.utf8Size '~' ∧ Roleless z c) := by
  by_cases hc : IsHigh c
  · have hbytes : marksOf [c] = (String.utf8EncodeChar c).map Char.ofUInt8 := by
      rw [Positions.marksOf_cons]
      exact List.append_nil _
    have hlength : (marksOf [c]).length = c.utf8Size := Positions.length_marksOf [c]
    have hne : marksOf [c] ≠ [] := by
      intro hnil
      rw [hnil] at hlength
      exact absurd hlength.symm (Nat.pos_iff_ne_zero.mp c.utf8Size_pos)
    obtain ⟨hveiled, hafter⟩ := veiled_of_isHigh
      (fun d hd => Positions.isHigh_of_mem_encode hc (hbytes ▸ hd)) z
    have hveil : z.veil c ≠ c := by
      rw [Zone.veil_of_isHigh hc]
      exact (hc.ne (by decide)).symm
    rw [hveiled, hlength, hafter hne, Zone.next_of_isHigh hc]
    exact ⟨rfl, Or.inr ⟨rfl, (roleless_of_veil hveil).2⟩⟩
  · rw [Positions.marksOf_cons_of_not_isHigh hc]
    refine ⟨rfl, ?_⟩
    show [z.veil c] = [c] ∨ [z.veil c] = _ ∧ _
    rw [Positions.utf8Size_of_not_isHigh hc]
    by_cases hveil : z.veil c = c
    · exact Or.inl (by rw [hveil])
    · obtain ⟨htilde, hrole⟩ := roleless_of_veil hveil
      exact Or.inr ⟨by rw [htilde]; rfl, hrole⟩

/-- A text has the zones of its bytes. -/
theorem after_marksOf (z : Zone) (t : List Char) : z.after (marksOf t) = z.after t := by
  induction t generalizing z with
  | nil => rfl
  | cons c t ih =>
      rw [← List.singleton_append, Positions.marksOf_append, Zone.after_append, ih,
        (veiled_marksOf_singleton z c).1]
      rfl

/-! ## Bodies between offsets -/

/-- Whether the body of a block of a text stands from one offset to another. -/
def Block.BodyAt (b : Block) (t : List Char) (start stop : Nat) : Prop :=
  ∃ before head : List Char, b.Spans t before head
    ∧ width (before ++ (head ++ ['{'])) = start ∧ start + width b.body.toList = stop

/-- Whether blocks of two texts have the same header and their bodies the same offsets. -/
def Block.SameExtent (t t' : List Char) (b b' : Block) : Prop :=
  b.header = b'.header ∧ ∃ start stop : Nat, b.BodyAt t start stop ∧ b'.BodyAt t' start stop

/-- Whether two texts have blocks of the same extents, one by one, or the same block that
    never closes. -/
inductive SameExtents (t t' : List Char) :
    Except Header (List Block) → Except Header (List Block) → Prop where
  | ok {found found' : List Block} : List.Forall₂ (Block.SameExtent t t') found found' →
      SameExtents t t' (.ok found) (.ok found')
  | error (opened : Header) : SameExtents t t' (.error opened) (.error opened)

theorem Block.BodyAt.append {b : Block} {start stop : Nat} (h : b.BodyAt t start stop)
    (more : List Char) : b.BodyAt (t ++ more) start stop := by
  obtain ⟨before, head, hspans, hstart, hstop⟩ := h
  exact ⟨before, head, hspans.append more, hstart, hstop⟩

theorem Block.BodyAt.unique {b : Block} {start stop start' stop' : Nat}
    (h : b.BodyAt t start stop) (h' : b.BodyAt t start' stop') :
    start = start' ∧ stop = stop' := by
  obtain ⟨before, head, hspans, rfl, rfl⟩ := h
  obtain ⟨before', head', hspans', rfl, rfl⟩ := h'
  obtain ⟨rfl, rfl⟩ := hspans.unique hspans'
  exact ⟨rfl, rfl⟩

theorem Block.SameExtent.append {b b' : Block} (h : b.SameExtent t t' b') (more more' : List Char) :
    Block.SameExtent (t ++ more) (t' ++ more') b b' := by
  obtain ⟨hheader, start, stop, hbody, hbody'⟩ := h
  exact ⟨hheader, start, stop, hbody.append more, hbody'.append more'⟩

/-- Two blocks that share their extent with the same one share it. -/
theorem Block.SameExtent.trans_symm {b b' common : Block} (h : Block.SameExtent t v b common)
    (h' : Block.SameExtent t' v b' common) : Block.SameExtent t t' b b' := by
  obtain ⟨hheader, start, stop, hbody, hcommon⟩ := h
  obtain ⟨hheader', start', stop', hbody', hcommon'⟩ := h'
  obtain ⟨rfl, rfl⟩ := hcommon.unique hcommon'
  exact ⟨hheader.trans hheader'.symm, start, stop, hbody, hbody'⟩

/-- Block by block. -/
theorem forall₂_sameExtent_trans_symm {common : List Block}
    (h : List.Forall₂ (Block.SameExtent t v) found common)
    (h' : List.Forall₂ (Block.SameExtent t' v) found' common) :
    List.Forall₂ (Block.SameExtent t t') found found' := by
  induction h generalizing found' with
  | nil =>
      cases h'
      exact List.Forall₂.nil
  | cons hb _ ih =>
      obtain _ | ⟨hb', hrest⟩ := h'
      exact List.Forall₂.cons (hb.trans_symm hb') (ih hrest)

theorem SameExtents.trans_symm {r r' common : Except Header (List Block)}
    (h : SameExtents t v r common) (h' : SameExtents t' v r' common) : SameExtents t t' r r' := by
  cases h with
  | error opened =>
      cases h' with
      | error => exact .error opened
  | ok hfound =>
      cases h' with
      | ok hfound' => exact .ok (forall₂_sameExtent_trans_symm hfound hfound')

/-! ## Scans of a text and of the veiled one -/

/-- Whether two places are the same, but for what stands in a body. -/
inductive Place.Abreast : Place → Place → Prop where
  | outside {p : Place} : p.isOutside = true → Abreast p p
  | body {opened : Header} {text text' : List Char} (d : Nat) : width text = width text' →
      Abreast (.body opened d text) (.body opened d text')

/-- Whether two texts lead to the same offset, zone and place, with blocks of the same
    extents behind them. -/
structure Abreast (t t' : List Char) : Prop where
  offset : width t = width t'
  zone : zoneAfter t = zoneAfter t'
  place : (Scan.start.run t).place.Abreast (Scan.start.run t').place
  found : List.Forall₂ (Block.SameExtent t t') (Scan.start.run t).found (Scan.start.run t').found

theorem abreast_nil : Abreast [] [] where
  offset := rfl
  zone := rfl
  place := .outside rfl
  found := List.Forall₂.nil

theorem width_reverse (t : List Char) : width t.reverse = width t := by
  induction t with
  | nil => rfl
  | cons c t ih =>
      rw [List.reverse_cons, width_append, ih, width_cons, width_cons, width_nil, Nat.add_zero,
        Nat.add_comm]

/-- A scan in its parts. -/
theorem Scan.run_eq (t : List Char) : Scan.start.run t
    = ⟨width t, zoneAfter t, (Scan.start.run t).place, (Scan.start.run t).found⟩ := by
  have hoffset := (Scan.reads t).offset
  have hzone := (Scan.keeps t).zone
  cases hscan : Scan.start.run t with
  | mk offset zone place found =>
      rw [hscan] at hoffset hzone
      rw [← hoffset, ← hzone]

theorem Scan.run_snoc (t : List Char) (c : Char) : Scan.start.run (t ++ [c])
    = Scan.step ⟨width t, zoneAfter t, (Scan.start.run t).place, (Scan.start.run t).found⟩ c := by
  rw [← Scan.run_eq t]
  exact Scan.run_append Scan.start t [c]

/-- Texts abreast go on so if the blocks that they have found stay the same. -/
theorem Abreast.move (h : Abreast t t') {more more' : List Char} {z : Zone} {q q' : Place}
    (hwidth : width more = width more') (hzone : zoneAfter (t ++ more) = zoneAfter (t' ++ more'))
    (hrun : Scan.start.run (t ++ more)
      = ⟨o, z, q, (Scan.start.run t).found⟩)
    (hrun' : Scan.start.run (t' ++ more') = ⟨o, z, q', (Scan.start.run t').found⟩)
    (hplace : q.Abreast q') : Abreast (t ++ more) (t' ++ more') where
  offset := by rw [width_append, width_append, h.offset, hwidth]
  zone := hzone
  place := by
    rw [hrun, hrun']
    exact hplace
  found := by
    rw [hrun, hrun']
    exact h.found.imp fun _ _ hb => hb.append more more'

/-! ## Characters without a role -/

/-- Where characters without a role lead: on in a body, and else between the blocks, if
    they are code. -/
def Place.over (z : Zone) (cs : List Char) : Place → Place
  | .body opened d text => .body opened d (cs.reverse ++ text)
  | p => if z.isCode then .between else p

theorem Place.over_outside (hp : p.isOutside = true) (z : Zone) (cs : List Char) :
    p.over z cs = if z.isCode then .between else p := by
  cases p with
  | body opened d text => cases hp
  | _ => rfl

/-- One more tilde. -/
theorem Place.over_tilde (p : Place) (z : Zone) (cs : List Char) :
    (p.over z cs).over (z.next '~') ['~'] = p.over z (cs ++ ['~']) := by
  cases hp : p.isOutside with
  | true =>
      rw [Place.over_outside hp, Place.over_outside hp]
      by_cases hz : z.isCode = true
      · rw [if_pos hz, Place.over_outside rfl, Zone.isCode_next_tilde, if_pos hz]
      · rw [if_neg hz, Place.over_outside hp, Zone.isCode_next_tilde, if_neg hz]
  | false =>
      cases p with
      | body opened d text => simp [Place.over]
      | _ => cases hp

theorem Scan.step_roleless (h : Roleless z c) : step ⟨o, z, p, found⟩ c
    = ⟨o + c.utf8Size, z.next '~', p.over z [c], found⟩ := by
  rw [← h.next]
  cases hp : p.isOutside with
  | true =>
      rw [Place.over_outside hp]
      by_cases hz : z.isCode = true
      · rw [Scan.step_outside hz hp, if_pos hz,
          Place.next_eq_between hp o (h.name hz) (h.blank hz) (h.brace hz).1]
      · rw [step_idle hz hp, if_neg hz]
  | false =>
      cases p with
      | body opened d text => exact step_body c h.brace
      | _ => cases hp

/-- Tildes, one at least. -/
theorem Scan.run_tildes (n : Nat) : run ⟨o, z, p, found⟩ (List.replicate (n + 1) '~')
    = ⟨o + (n + 1), z.next '~', p.over z (List.replicate (n + 1) '~'), found⟩ := by
  induction n with
  | zero => exact step_roleless (roleless_tilde z)
  | succ n ih =>
      have hmore : List.replicate (n + 1 + 1) '~' = List.replicate (n + 1) '~' ++ ['~'] :=
        List.replicate_succ'
      rw [hmore, run_append, ih, run_cons, run_nil, step_roleless (roleless_tilde _),
        Zone.next_tilde, Place.over_tilde]
      rfl

theorem width_replicate_tilde (n : Nat) : width (List.replicate n '~') = n := by
  induction n with
  | zero => rfl
  | succ n ih =>
      rw [List.replicate_succ, width_cons, ih, Nat.add_comm]
      rfl

/-- Places abreast stay so over characters without a role that are as many bytes. -/
theorem Place.Abreast.over (h : p.Abreast p') (z : Zone) (hwidth : width m = width m') :
    (p.over z m).Abreast (p'.over z m') := by
  cases h with
  | outside hp =>
      rw [Place.over_outside hp, Place.over_outside hp]
      by_cases hz : z.isCode = true
      · rw [if_pos hz]
        exact .outside rfl
      · rw [if_neg hz]
        exact .outside hp
  | body d htext =>
      refine .body d ?_
      rw [width_append, width_append, width_reverse, width_reverse, hwidth, htext]

/-- A character without a role goes abreast of tildes. -/
theorem Abreast.tildes (h : Abreast t t') (hc : Roleless (zoneAfter t) c) :
    Abreast (t ++ [c]) (t' ++ List.replicate c.utf8Size '~') := by
  obtain ⟨n, hn⟩ := Nat.exists_eq_succ_of_ne_zero (Nat.pos_iff_ne_zero.mp c.utf8Size_pos)
  have hrun := Scan.run_snoc t c
  rw [Scan.step_roleless hc, hn] at hrun
  have hrun' := Scan.run_append Scan.start t' (List.replicate (n + 1) '~')
  rw [Scan.run_eq t', Scan.run_tildes n, ← h.offset, ← h.zone] at hrun'
  rw [hn]
  refine h.move ?_ ?_ hrun hrun' ?_
  · rw [width_replicate_tilde, width_cons, hn]
    rfl
  · have hzone := (Scan.keeps (t ++ [c])).zone
    have hzone' := (Scan.keeps (t' ++ List.replicate (n + 1) '~')).zone
    rw [hrun] at hzone
    rw [hrun'] at hzone'
    exact hzone.symm.trans hzone'
  · refine h.place.over _ ?_
    rw [width_replicate_tilde, width_cons, hn]
    rfl

/-! ## Scans abreast -/

theorem Place.Abreast.refl (p : Place) : p.Abreast p := by
  cases p with
  | body opened d text => exact .body d rfl
  | _ => exact .outside rfl

/-- Where the brace stands that closes a body, the body has its extent. -/
theorem bodyAt_of_closed {opened : Header} {text : List Char}
    (hplace : (Scan.start.run t).place = .body opened 0 text)
    (hz : (zoneAfter t).isCode = true) : ∃ start : Nat, start + width text = width t
      ∧ Block.BodyAt ⟨opened, String.ofList text.reverse⟩ (t ++ ['}']) start (width t) := by
  have hkeeps := Scan.keeps t
  obtain ⟨before, head, hspans, -, hcut⟩ :=
    hkeeps.spans (Scan.reads t) hplace (by rw [hkeeps.zone]; exact hz)
  have htext : width t = width (before ++ (head ++ ['{'])) + width text := by
    have hwidth := congrArg width hcut
    simp only [width_append, width_cons, width_nil, width_reverse] at hwidth ⊢
    omega
  refine ⟨_, htext.symm, before, head, hspans, rfl, ?_⟩
  rw [String.toList_ofList, width_reverse]
  exact htext.symm

/-- The brace that closes a body gives both texts a block of the same extent. -/
theorem Abreast.close (h : Abreast t t') {opened : Header} {text text' : List Char}
    (hplace : (Scan.start.run t).place = .body opened 0 text)
    (hplace' : (Scan.start.run t').place = .body opened 0 text')
    (htext : width text = width text') (hz : (zoneAfter t).isCode = true) :
    Abreast (t ++ ['}']) (t' ++ ['}']) := by
  have hz' : (zoneAfter t').isCode = true := h.zone ▸ hz
  obtain ⟨start, hstart, hbody⟩ := bodyAt_of_closed hplace hz
  obtain ⟨start', hstart', hbody'⟩ := bodyAt_of_closed hplace' hz'
  have hoffset := h.offset
  obtain rfl : start = start' := by omega
  have hrun := Scan.run_snoc t '}'
  have hrun' := Scan.run_snoc t' '}'
  rw [hplace, Scan.step_finish hz] at hrun
  rw [hplace', Scan.step_finish hz'] at hrun'
  refine ⟨?_, ?_, ?_, ?_⟩
  · rw [width_append, width_append, hoffset]
  · rw [zoneAfter_snoc, zoneAfter_snoc, h.zone]
  · rw [hrun, hrun']
    exact .outside rfl
  · rw [hrun, hrun']
    refine List.Forall₂.cons ⟨rfl, start, width t, hbody, ?_⟩
      (h.found.imp fun _ _ hb => hb.append ['}'] ['}'])
    rw [hoffset]
    exact hbody'

/-- The same character goes on abreast. -/
theorem Abreast.same (h : Abreast t t') (c : Char) : Abreast (t ++ [c]) (t' ++ [c]) := by
  have hrun := Scan.run_snoc t c
  have hrun' := Scan.run_snoc t' c
  rw [← h.offset, ← h.zone] at hrun'
  have hzone : zoneAfter (t ++ [c]) = zoneAfter (t' ++ [c]) := by
    rw [zoneAfter_snoc, zoneAfter_snoc, h.zone]
  have hplace := h.place
  generalize hp : (Scan.start.run t).place = p at hplace hrun
  generalize hp' : (Scan.start.run t').place = p' at hplace hrun'
  cases hplace with
  | outside hout =>
      by_cases hz : (zoneAfter t).isCode = true
      · rw [Scan.step_outside hz hout] at hrun hrun'
        exact h.move rfl hzone hrun hrun' (Place.Abreast.refl _)
      · rw [Scan.step_idle hz hout] at hrun hrun'
        exact h.move rfl hzone hrun hrun' (Place.Abreast.refl _)
  | @body opened text text' d htext =>
      have hcons : width (c :: text) = width (c :: text') := by
        rw [width_cons, width_cons, htext]
      by_cases hopen : (zoneAfter t).isCode = true ∧ c = '{'
      · obtain ⟨hz, rfl⟩ := hopen
        rw [Scan.step_open hz] at hrun hrun'
        exact h.move rfl hzone hrun hrun' (.body _ hcons)
      by_cases hclose : (zoneAfter t).isCode = true ∧ c = '}'
      · obtain ⟨hz, rfl⟩ := hclose
        cases d with
        | zero => exact h.close hp hp' htext hz
        | succ d =>
            rw [Scan.step_close hz] at hrun hrun'
            exact h.move rfl hzone hrun hrun' (.body _ hcons)
      · have hother : (zoneAfter t).isCode = true → c ≠ '{' ∧ c ≠ '}' :=
          fun hz => ⟨fun hc => hopen ⟨hz, hc⟩, fun hc => hclose ⟨hz, hc⟩⟩
        rw [Scan.step_body c hother] at hrun hrun'
        exact h.move rfl hzone hrun hrun' (.body _ hcons)

/-- A text goes abreast of its veiled bytes. -/
theorem abreast_veiled (t : List Char) : Abreast t (veiled .code (marksOf t)) := by
  induction t using List.reverseRecOn with
  | nil => exact abreast_nil
  | append_singleton t c ih =>
      have hbytes : veiled .code (marksOf (t ++ [c]))
          = veiled .code (marksOf t) ++ veiled (zoneAfter t) (marksOf [c]) := by
        rw [Positions.marksOf_append, veiled_append, after_marksOf]
        rfl
      rw [hbytes]
      rcases (veiled_marksOf_singleton (zoneAfter t) c).2 with hkept | ⟨htildes, hrole⟩
      · rw [hkept]
        exact ih.same c
      · rw [htildes]
        exact ih.tildes hrole

/-- Texts abreast have blocks of the same extents. -/
theorem Abreast.sameExtents (h : Abreast t t') :
    SameExtents t t' (Scan.start.run t).result (Scan.start.run t').result := by
  have hplace := h.place
  have hfound := List.rel_reverse h.found
  rw [Scan.result, Scan.result]
  generalize (Scan.start.run t).place = p at hplace
  generalize (Scan.start.run t').place = p' at hplace
  cases hplace with
  | @outside p hout =>
      cases p with
      | body opened d text => cases hout
      | _ => exact .ok hfound
  | body d htext => exact .error _

/-- **Strings and comments never steer a block scan.**  If two texts are as long as each
    other and their bytes differ only where the lexing of the whole text has literals or
    comments, which neither text ends there, then either both have blocks, with the same
    headers and with bodies between the same offsets, or in both the same block never
    closes. -/
theorem sameExtents_of_hidden {text text' : String} (h : DifferHidden (marks text) (marks text')) :
    SameExtents text.toList text'.toList (blocks text) (blocks text') := by
  have hmarks : ∀ s : String, marks s = marksOf s.toList := by
    intro s
    rw [← Positions.marks_ofList, String.ofList_toList]
  have hveiled : veiled .code (marksOf text.toList) = veiled .code (marksOf text'.toList) := by
    rw [← hmarks, ← hmarks]
    exact veiled_eq h.length h.hidden
  have hcommon := (abreast_veiled text.toList).sameExtents
  have hcommon' := (abreast_veiled text'.toList).sameExtents
  rw [← hveiled] at hcommon'
  exact hcommon.trans_symm hcommon'

/-- In the default of a field and in the comments behind it and behind the block, braces,
    slashes, a quote, a header and a letter of two bytes become others. -/
theorem sameExtents_of_hidden_note :
    DifferHidden
        (marks "model A \x7bs String @default(\"\x7d//é\") // \x7d\n\x7d // model B \x7b")
        (marks "model A \x7bs String @default(\"\x7babcd\") //\"\x7b\n\x7d // enum EE \x7d")
      ∧ SameExtents
        "model A \x7bs String @default(\"\x7d//é\") // \x7d\n\x7d // model B \x7b".toList
        "model A \x7bs String @default(\"\x7babcd\") //\"\x7b\n\x7d // enum EE \x7d".toList
        (blocks "model A \x7bs String @default(\"\x7d//é\") // \x7d\n\x7d // model B \x7b")
        (blocks "model A \x7bs String @default(\"\x7babcd\") //\"\x7b\n\x7d // enum EE \x7d") := by
  have hhidden : DifferHidden
      (marks "model A \x7bs String @default(\"\x7d//é\") // \x7d\n\x7d // model B \x7b")
      (marks "model A \x7bs String @default(\"\x7babcd\") //\"\x7b\n\x7d // enum EE \x7d") :=
    ⟨by decide +kernel, by decide +kernel⟩
  exact ⟨hhidden, sameExtents_of_hidden hhidden⟩

end Stencil.Schema
