/-! # Quoted text

    In text between double quotes a backslash introduces a character that cannot
    stand for itself, by a letter or by its code point in four or eight
    hexadecimal digits. -/

namespace Stencil.Settings

/-- Reads a part off the front of a text: what was read and the rest, or nothing
    if the part is not there. -/
abbrev Reader (α : Type) := List Char → Option (α × List Char)

/-- Whether a character may stand for itself in quoted text: anything but control
    characters, of which only the tab may. -/
def isPlain (c : Char) : Bool :=
  c = '\t' || (32 ≤ c.toNat && c.toNat != 127)

/-- The value of a hexadecimal digit. -/
def hexValue? (c : Char) : Option Nat :=
  if '0' ≤ c ∧ c ≤ '9' then some (c.toNat - 48)
  else if 'a' ≤ c ∧ c ≤ 'f' then some (c.toNat - 87)
  else if 'A' ≤ c ∧ c ≤ 'F' then some (c.toNat - 55)
  else none

/-- The number that hexadecimal digits write. -/
def hexNumber? (digits : List Char) : Option Nat :=
  digits.foldlM (fun n c => (hexValue? c).map (16 * n + ·)) 0

/-- The character with exactly `count` hexadecimal digits at the start of a
    text. -/
def codePoint? (count : Nat) (cs : List Char) : Option Char := do
  let digits := cs.take count
  guard (digits.length = count)
  let code ← hexNumber? digits
  guard code.isValidChar
  return Char.ofNat code

/-- The character that an escape stands for, and the length of the escape after
    its backslash. -/
def escape? : List Char → Option (Char × Nat)
  | 'b' :: _ => some ('\x08', 1)
  | 't' :: _ => some ('\t', 1)
  | 'n' :: _ => some ('\n', 1)
  | 'f' :: _ => some ('\x0c', 1)
  | 'r' :: _ => some ('\r', 1)
  | '"' :: _ => some ('"', 1)
  | '\\' :: _ => some ('\\', 1)
  | 'u' :: rest => (codePoint? 4 rest).map (·, 5)
  | 'U' :: rest => (codePoint? 8 rest).map (·, 9)
  | _ => none

/-- The rest of a quoted text, up to its closing quote. -/
def quotedRest : Reader (List Char)
  | [] => none
  | c :: rest =>
      if c = '"' then some ([], rest)
      else if c = '\\' then
        match escape? rest with
        | some (escaped, length) =>
            (quotedRest (rest.drop length)).map fun (s, rest) => (escaped :: s, rest)
        | none => none
      else if isPlain c then (quotedRest rest).map fun (s, rest) => (c :: s, rest)
      else none
termination_by cs => cs.length
decreasing_by
  · simp only [List.length_drop, List.length_cons]; omega
  · simp

end Stencil.Settings
