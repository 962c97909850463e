import Stencil.Proofs.Schema.Edited
import Stencil.Proofs.SelfDelimiting
import Stencil.Schema.JsonText

/-! # A JSON text is that of one index

    Every part of a JSON text says where it ends: an escaped character by its first signs, a
    string by the quote that is not escaped, an object or an array by what comes after one
    of its parts, a comma or the closing bracket.  So parts of whatever content cannot run
    into each other, and the text tells every name, type and value, in order.

    This holds in both layouts.  The payoff is `json_determines_index`. -/

namespace Stencil.Schema

open Stencil.Text (SelfDelimiting)

theorem Model.toList_injective : Function.Injective Model.toList :=
  Function.LeftInverse.injective Model.ofList_toList

namespace JsonText

variable {α β : Type} {layout : Layout}

/-! ## Strings -/

/-- The value of a hexadecimal digit. -/
def hexValue (c : Char) : Nat :=
  if c.toNat < 58 then c.toNat - 48 else c.toNat - 87

/-- What stands for a character after a backslash, and what comes after that. -/
def readSign : List Char → Option (Char × List Char)
  | [] => none
  | 'u' :: _ :: _ :: high :: low :: rest =>
      some (Char.ofNat (16 * hexValue high + hexValue low), rest)
  | 'n' :: rest => some ('\n', rest)
  | 'r' :: rest => some ('\r', rest)
  | 't' :: rest => some ('\t', rest)
  | 'b' :: rest => some ('\x08', rest)
  | 'f' :: rest => some ('\x0c', rest)
  | c :: rest => some (c, rest)

/-- The first character that stands in the inside of a string, and what comes after it. -/
def readEscaped : List Char → Option (Char × List Char)
  | [] => none
  | c :: rest => if c = '\\' then readSign rest else some (c, rest)

theorem ofNat_hexDigits {c : Char} (h : c.toNat < 32) :
    Char.ofNat (16 * hexValue (hexDigit (c.toNat / 16)) + hexValue (hexDigit (c.toNat % 16)))
      = c := by
  have hvalue : ∀ n < 32, 16 * hexValue (hexDigit (n / 16)) + hexValue (hexDigit (n % 16)) = n := by
    decide
  rw [hvalue _ h, Char.ofNat_toNat]

/-- A character is read back from what is written for it. -/
theorem readEscaped_escape (c : Char) (rest : List Char) :
    readEscaped (escape c ++ rest) = some (c, rest) := by
  rw [escape]
  split_ifs with hquote hbackslash hline hreturn htab hback hform hcontrol
  · rw [hquote]; rfl
  · rw [hbackslash]; rfl
  · rw [hline]; rfl
  · rw [hreturn]; rfl
  · rw [htab]; rfl
  · rw [hback]; rfl
  · rw [hform]; rfl
  · show some (Char.ofNat _, rest) = _
    rw [ofNat_hexDigits hcontrol]
  · exact if_neg hbackslash

theorem selfDelimiting_escape : SelfDelimiting escape :=
  SelfDelimiting.of_read readEscaped_escape

/-- What is written for a character does not open with a quote. -/
theorem head?_escape (c : Char) : ∃ d : Char, (escape c).head? = some d ∧ d ≠ '"' := by
  rw [escape]
  split_ifs with hquote
  all_goals first
    | exact ⟨'\\', rfl, by decide⟩
    | exact ⟨c, rfl, hquote⟩

theorem toList_quote (s : String) :
    (quote s).toList = '"' :: (s.toList.flatMap escape ++ ['"']) := by
  have hinside : (String.ofList (s.toList.flatMap escape)).toList = s.toList.flatMap escape :=
    String.toList_ofList
  rw [quote, String.toList_append, String.toList_append, hinside, List.append_assoc]
  rfl

theorem head?_quote (s : String) : (quote s).toList.head? = some '"' := by
  rw [toList_quote]
  rfl

theorem selfDelimiting_quote : SelfDelimiting fun s => (quote s).toList := by
  have hinside : SelfDelimiting fun cs : List Char => cs.flatMap escape ++ ['"'] :=
    selfDelimiting_escape.flatMap rfl head?_escape
  have hinjective : Function.Injective String.toList := fun _ _ heq => String.toList_injective heq
  simp only [toList_quote]
  exact (hinside.comap hinjective).after ['"']

/-! ## Objects and arrays -/

theorem toList_intercalate (separator part : String) (parts : List String) :
    (separator.intercalate (part :: parts)).toList
      = part.toList ++ parts.flatMap fun next => separator.toList ++ next.toList := by
  induction parts generalizing part with
  | nil => rw [String.intercalate_singleton, List.flatMap_nil, List.append_nil]
  | cons next parts ih =>
      rw [String.intercalate_cons_cons, String.toList_append, String.toList_append, ih,
        List.flatMap_cons, List.append_assoc, List.append_assoc]

/-- What stands between brackets, if there are parts. -/
theorem toList_enclose (opening closing part : String) (parts : List String) :
    (enclose layout opening closing (part :: parts)).toList
      = (opening.toList ++ layout.deeper.lineBreak.toList)
        ++ (part.toList
          ++ (parts.flatMap (fun next => (',' :: layout.deeper.lineBreak.toList) ++ next.toList)
            ++ (layout.lineBreak.toList ++ closing.toList))) := by
  have hseparator : ("," ++ layout.deeper.lineBreak).toList
      = ',' :: layout.deeper.lineBreak.toList := String.toList_append ..
  rw [enclose, if_neg (by simp)]
  simp only [String.toList_append, toList_intercalate, hseparator, List.append_assoc]

/-- After a line break, or where there is none, stands what comes next. -/
theorem head?_lineBreak (layout : Layout) {text : List Char} {c : Char}
    (h : text.head? = some c) :
    (layout.lineBreak.toList ++ text).head? = some c
      ∨ (layout.lineBreak.toList ++ text).head? = some '\n' := by
  cases layout with
  | compact => exact Or.inl h
  | indented level =>
      refine Or.inr ?_
      rw [Layout.lineBreak, String.toList_ofList]
      rfl

/-- Whether a character can close an object or an array: it neither opens a part nor stands
    between parts. -/
structure IsClosing (c : Char) : Prop where
  ne_quote : c ≠ '"'
  ne_comma : c ≠ ','
  ne_lineBreak : c ≠ '\n'

/-- Parts between brackets are told one by one if all of them open with a quote. -/
theorem selfDelimiting_enclose (layout : Layout) {write : α → String}
    (hwrite : SelfDelimiting fun a => (write a).toList)
    (hquote : ∀ a : α, (write a).toList.head? = some '"') (opening : String) {closing : String}
    {c : Char} (hclosing : closing.toList.head? = some c) (hc : IsClosing c) :
    SelfDelimiting fun items : List α =>
      (enclose layout opening closing (items.map write)).toList := by
  have hnone : (enclose layout opening closing []).toList = opening.toList ++ closing.toList :=
    String.toList_append ..
  -- a part opens with a quote, after a line break or not, and a bracket is neither
  have hne : ∀ (a : α) (as : List α) (rest rest' : List Char),
      (enclose layout opening closing ((a :: as).map write)).toList ++ rest
        ≠ (enclose layout opening closing []).toList ++ rest' := by
    intro a as rest rest' heq
    simp only [List.map_cons, toList_enclose, hnone, List.append_assoc] at heq
    have heq := List.append_cancel_left heq
    rw [← List.append_assoc] at heq
    rcases head?_lineBreak layout.deeper (hquote a) with hhead | hhead
    · exact SelfDelimiting.ne_of_head? hhead hclosing hc.ne_quote.symm heq
    · exact SelfDelimiting.ne_of_head? hhead hclosing hc.ne_lineBreak.symm heq
  have hothers : SelfDelimiting fun items : List α =>
      items.flatMap (fun a => (',' :: layout.deeper.lineBreak.toList) ++ (write a).toList)
        ++ (layout.lineBreak.toList ++ closing.toList) := by
    rcases head?_lineBreak layout hclosing with hstop | hstop
    · exact (hwrite.after _).flatMap hstop fun a => ⟨',', rfl, hc.ne_comma.symm⟩
    · exact (hwrite.after _).flatMap hstop fun a => ⟨',', rfl, by decide⟩
  intro items items' rest rest' heq
  cases items with
  | nil =>
      cases items' with
      | nil => exact ⟨rfl, List.append_cancel_left heq⟩
      | cons b bs => exact absurd heq.symm (hne b bs rest' rest)
  | cons a as =>
      cases items' with
      | nil => exact absurd heq (hne a as rest rest')
      | cons b bs =>
          simp only [List.map_cons, toList_enclose, List.flatMap_map] at heq
          obtain ⟨hpair, hrest⟩ := (hwrite.pair hothers).after
            (opening.toList ++ layout.deeper.lineBreak.toList)
            (a := (a, as)) (b := (b, bs)) heq
          obtain ⟨rfl, rfl⟩ := Prod.mk.inj hpair
          exact ⟨rfl, hrest⟩

/-- A member of an object. -/
def member (layout : Layout) (name value : String) : String :=
  quote name ++ layout.colon ++ value

theorem toList_member (name value : String) :
    (member layout name value).toList
      = (quote name).toList ++ (layout.colon.toList ++ value.toList) := by
  rw [member, String.toList_append, String.toList_append, List.append_assoc]

theorem head?_member (name value : String) :
    (member layout name value).toList.head? = some '"' := by
  rw [toList_member, toList_quote]
  rfl

/-- The members of an object are told one by one. -/
theorem selfDelimiting_object (layout : Layout) {write : β → String}
    (hwrite : SelfDelimiting fun b => (write b).toList) :
    SelfDelimiting fun members : List (String × β) =>
      (object layout (members.map fun m => (m.1, write m.2))).toList := by
  have hmember : SelfDelimiting fun m : String × β => (member layout m.1 (write m.2)).toList := by
    have hpair := selfDelimiting_quote.pair (hwrite.after layout.colon.toList)
    simp only [toList_member]
    exact hpair
  have hhead : "\x7d".toList.head? = some '\x7d' := rfl
  have hobject : ∀ members : List (String × β), object layout (members.map fun m => (m.1, write m.2))
      = enclose layout "\x7b" "\x7d" (members.map fun m => member layout m.1 (write m.2)) := by
    intro members
    rw [object, List.map_map]
    rfl
  simp only [hobject]
  exact selfDelimiting_enclose layout hmember (fun m => head?_member m.1 _) "\x7b" hhead
    (by constructor <;> decide)

/-- The strings of an array are told one by one. -/
theorem selfDelimiting_array (layout : Layout) :
    SelfDelimiting fun items : List String => (array layout (items.map quote)).toList := by
  have hhead : "]".toList.head? = some ']' := rfl
  exact selfDelimiting_enclose layout selfDelimiting_quote head?_quote "[" hhead
    (by constructor <;> decide)

/-- The values of an object with two members of known names are told. -/
theorem selfDelimiting_object_two (layout : Layout) {write : α → String} {write' : β → String}
    (hwrite : SelfDelimiting fun a => (write a).toList)
    (hwrite' : SelfDelimiting fun b => (write' b).toList) (name name' : String) :
    SelfDelimiting fun p : α × β =>
      (object layout [(name, write p.1), (name', write' p.2)]).toList := by
  have hobject : ∀ p : α × β, (object layout [(name, write p.1), (name', write' p.2)]).toList
      = ("\x7b".toList ++ layout.deeper.lineBreak.toList
          ++ ((quote name).toList ++ layout.colon.toList))
        ++ ((write p.1).toList ++ ((',' :: layout.deeper.lineBreak.toList
          ++ ((quote name').toList ++ layout.colon.toList))
            ++ ((write' p.2).toList ++ (layout.lineBreak.toList ++ "\x7d".toList)))) := by
    intro p
    rw [object, List.map_cons, List.map_cons, List.map_nil, toList_enclose]
    simp only [String.toList_append, List.flatMap_cons, List.flatMap_nil, List.append_assoc,
      List.append_nil]
  have hpair := (hwrite.pair ((hwrite'.before (layout.lineBreak.toList ++ "\x7d".toList)).after
    (',' :: layout.deeper.lineBreak.toList ++ ((quote name').toList ++ layout.colon.toList)))).after
      ("\x7b".toList ++ layout.deeper.lineBreak.toList
        ++ ((quote name).toList ++ layout.colon.toList))
  simp only [hobject]
  exact hpair

/-! ## Indexes -/

theorem selfDelimiting_model (layout : Layout) : SelfDelimiting fun m => (model layout m).toList :=
  (selfDelimiting_object layout selfDelimiting_quote).comap Model.toList_injective

theorem selfDelimiting_enum (layout : Layout) : SelfDelimiting fun e => (enum layout e).toList := by
  have hinjective : Function.Injective fun e : Enum => (e.name, e.values) := by
    rintro ⟨name, values⟩ ⟨name', values'⟩ heq
    obtain ⟨rfl, rfl⟩ := Prod.mk.inj heq
    rfl
  have htwo := selfDelimiting_object_two layout selfDelimiting_quote
    (selfDelimiting_array layout.deeper) "name" "values"
  have henum := htwo.comap hinjective
  exact henum

theorem selfDelimiting_index (layout : Layout) :
    SelfDelimiting fun i => (index layout i).toList := by
  have hinjective : Function.Injective fun i : Index => (i.models.toList, i.enums.toList) := by
    rintro ⟨models, enums⟩ ⟨models', enums'⟩ heq
    obtain ⟨hmodels, henums⟩ := Prod.mk.inj heq
    obtain rfl := Ordered.ext hmodels
    obtain rfl := Ordered.ext henums
    rfl
  have hmodels := selfDelimiting_object layout.deeper (selfDelimiting_model layout.deeper.deeper)
  have henums := selfDelimiting_object layout.deeper (selfDelimiting_enum layout.deeper.deeper)
  have htwo := selfDelimiting_object_two layout hmodels henums "models" "enums"
  have hindex := htwo.comap hinjective
  exact hindex

end JsonText

/-- **The JSON text determines the index.**  Indexes with the same JSON text, in one layout or in
    the other, are the same: models and enums, the fields and values of each, all in the same
    order. -/
theorem json_determines_index (i j : Index) :
    (i.compactJson = j.compactJson ↔ i = j) ∧ (i.indentedJson = j.indentedJson ↔ i = j) := by
  have hindex : ∀ layout : JsonText.Layout,
      JsonText.index layout i = JsonText.index layout j ↔ i = j := by
    intro layout
    refine ⟨fun heq => ?_, fun heq => heq ▸ rfl⟩
    exact (JsonText.selfDelimiting_index layout).injective (congrArg String.toList heq)
  exact ⟨hindex .compact, hindex (.indented 0)⟩

end Stencil.Schema
