import Mathlib.Logic.Function.Basic

/-! # Texts that say where they end

    A way to write values is self-delimiting if what is written of a value tells both the
    value and where it ends, whatever comes after it.  Such ways may be put together: with
    fixed text before and after, one after the other, and item by item up to a stop that no
    item opens with (`SelfDelimiting.flatMap`). -/

namespace Stencil.Text

variable {α β : Type}

/-- Whether a value, and the place where it ends, can be told from a text that opens with what
    is written of the value. -/
def SelfDelimiting (write : α → List Char) : Prop :=
  ∀ ⦃a b : α⦄ ⦃rest rest' : List Char⦄, write a ++ rest = write b ++ rest' → a = b ∧ rest = rest'

namespace SelfDelimiting

variable {write : α → List Char} {write' : β → List Char}

/-- What can be read back is self-delimiting. -/
theorem of_read {read : List Char → Option (α × List Char)}
    (h : ∀ (a : α) (rest : List Char), read (write a ++ rest) = some (a, rest)) :
    SelfDelimiting write := by
  intro a b rest rest' heq
  have hread := congrArg read heq
  rw [h, h] at hread
  exact Prod.mk.inj (Option.some.inj hread)

theorem injective (h : SelfDelimiting write) : Function.Injective write :=
  fun _ _ heq => (h (congrArg (· ++ []) heq)).1

theorem comap (h : SelfDelimiting write) {f : β → α} (hf : Function.Injective f) :
    SelfDelimiting fun b => write (f b) := by
  intro a b rest rest' heq
  obtain ⟨hsame, hrest⟩ := h heq
  exact ⟨hf hsame, hrest⟩

/-- Fixed text before what is written tells nothing. -/
theorem after (h : SelfDelimiting write) (front : List Char) :
    SelfDelimiting fun a => front ++ write a := by
  intro a b rest rest' heq
  rw [List.append_assoc, List.append_assoc] at heq
  exact h (List.append_cancel_left heq)

/-- Fixed text after what is written tells nothing. -/
theorem before (h : SelfDelimiting write) (back : List Char) :
    SelfDelimiting fun a => write a ++ back := by
  intro a b rest rest' heq
  rw [List.append_assoc, List.append_assoc] at heq
  obtain ⟨hsame, hrest⟩ := h heq
  exact ⟨hsame, List.append_cancel_left hrest⟩

theorem pair (h : SelfDelimiting write) (h' : SelfDelimiting write') :
    SelfDelimiting fun p : α × β => write p.1 ++ write' p.2 := by
  rintro ⟨a, a'⟩ ⟨b, b'⟩ rest rest' heq
  rw [List.append_assoc, List.append_assoc] at heq
  obtain ⟨rfl, hsecond⟩ := h heq
  obtain ⟨rfl, hrest⟩ := h' hsecond
  exact ⟨rfl, hrest⟩

/-- Texts that open with different characters are different. -/
theorem ne_of_head? {front front' rest rest' : List Char} {c d : Char}
    (hc : front.head? = some c) (hd : front'.head? = some d) (hne : c ≠ d) :
    front ++ rest ≠ front' ++ rest' := by
  intro heq
  obtain ⟨front, rfl⟩ := List.head?_eq_some_iff.mp hc
  obtain ⟨front', rfl⟩ := List.head?_eq_some_iff.mp hd
  exact hne (List.cons.inj heq).1

/-- Items are told one by one up to a stop, if none of them opens as the stop does. -/
theorem flatMap (h : SelfDelimiting write) {stop : List Char} {c : Char}
    (hstop : stop.head? = some c)
    (hopen : ∀ a : α, ∃ d : Char, (write a).head? = some d ∧ d ≠ c) :
    SelfDelimiting fun items : List α => items.flatMap write ++ stop := by
  have hne : ∀ (a : α) (rest rest' : List Char), write a ++ rest ≠ stop ++ rest' := by
    intro a rest rest'
    obtain ⟨d, hd, hdc⟩ := hopen a
    exact ne_of_head? hd hstop hdc
  have hgen : ∀ (items items' : List α) (rest rest' : List Char),
      items.flatMap write ++ (stop ++ rest) = items'.flatMap write ++ (stop ++ rest')
        → items = items' ∧ rest = rest' := by
    intro items
    induction items with
    | nil =>
        intro items' rest rest' heq
        cases items' with
        | nil => exact ⟨rfl, List.append_cancel_left heq⟩
        | cons b items' =>
            rw [List.flatMap_cons, List.append_assoc] at heq
            exact absurd heq.symm (hne b _ rest)
    | cons a items ih =>
        intro items' rest rest' heq
        rw [List.flatMap_cons, List.append_assoc] at heq
        cases items' with
        | nil => exact absurd heq (hne a _ rest')
        | cons b items' =>
            rw [List.flatMap_cons, List.append_assoc] at heq
            obtain ⟨rfl, hothers⟩ := h heq
            obtain ⟨rfl, hrest⟩ := ih items' rest rest' hothers
            exact ⟨rfl, hrest⟩
  intro items items' rest rest' heq
  refine hgen items items' rest rest' ?_
  rw [← List.append_assoc, ← List.append_assoc]
  exact heq

end SelfDelimiting

end Stencil.Text
