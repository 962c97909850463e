import Stencil.Settings.Toml.Lexical

/-! # Strings of TOML

    There are four kinds of strings: basic ones with escapes, literal ones
    without, and both over several lines, in which a line break right after the
    opening quotes is dropped.  Up to two quotes right before the closing ones
    belong to the string. -/

namespace Stencil.Settings.Toml

/-! ## One line -/

/-- The rest of a literal string, up to its closing quote. -/
def literalRest : Reader (List Char)
  | [] => none
  | c :: rest =>
      if c = '\'' then some ([], rest)
      else if isPlain c then (literalRest rest).map fun (s, rest) => (c :: s, rest)
      else none

/-! ## Several lines -/

/-- The quotes that belong to a string, after three that close it. -/
def lastQuotes (quote : Char) : List Char → List Char × List Char
  | c :: d :: rest =>
      if c = quote then
        if d = quote then ([c, d], rest) else ([c], d :: rest)
      else ([], c :: d :: rest)
  | [c] => if c = quote then ([c], []) else ([], [c])
  | [] => ([], [])

/-- What follows the blanks and line breaks at the front of a text. -/
def skipBreaks : List Char → List Char
  | '\n' :: rest => skipBreaks rest
  | '\r' :: '\n' :: rest => skipBreaks rest
  | c :: rest => if isGap c then skipBreaks rest else c :: rest
  | [] => []

/-- What follows a backslash at the end of a line: the next lines up to their
    first character that is no blank. -/
def continuation? (cs : List Char) : Option (List Char) :=
  (lineBreak? (skipGap cs)).map skipBreaks

/-- Skipping never lengthens. -/
theorem length_skipBreaks_le (cs : List Char) : (skipBreaks cs).length ≤ cs.length := by
  fun_induction skipBreaks cs with
  | case1 rest ih => exact Nat.le_succ_of_le ih
  | case2 rest ih => exact Nat.le_succ_of_le (Nat.le_succ_of_le ih)
  | case3 c rest _ _ _ ih => exact Nat.le_succ_of_le ih
  | case4 => exact Nat.le_refl _
  | case5 => exact Nat.le_refl _

/-- What follows a line break is shorter. -/
theorem length_lineBreak?_lt {cs rest : List Char} (h : lineBreak? cs = some rest) :
    rest.length < cs.length := by
  unfold lineBreak? at h
  split at h
  · cases h; exact Nat.lt_succ_self _
  · cases h; exact Nat.lt_succ_of_lt (Nat.lt_succ_self _)
  · cases h

/-- What follows a continued line is shorter. -/
theorem length_continuation?_lt {cs rest : List Char} (h : continuation? cs = some rest) :
    rest.length < cs.length := by
  obtain ⟨mid, hmid, rfl⟩ := Option.map_eq_some_iff.mp h
  have hgap : (skipGap cs).length ≤ cs.length := (List.dropWhile_sublist _).length_le
  have := length_lineBreak?_lt hmid
  have := length_skipBreaks_le mid
  omega

/-- The rest of a basic string over several lines. -/
def basicLines : Reader (List Char)
  | '"' :: '"' :: '"' :: rest => some (lastQuotes '"' rest)
  | '\n' :: rest => (basicLines rest).map fun (s, rest) => ('\n' :: s, rest)
  | '\r' :: '\n' :: rest => (basicLines rest).map fun (s, rest) => ('\n' :: s, rest)
  | '\\' :: rest =>
      match _h : continuation? rest with
      | some next => basicLines next
      | none =>
          match escape? rest with
          | some (escaped, length) =>
              (basicLines (rest.drop length)).map fun (s, rest) => (escaped :: s, rest)
          | none => none
  | c :: rest =>
      if isPlain c then (basicLines rest).map fun (s, rest) => (c :: s, rest) else none
  | [] => none
termination_by cs => cs.length
decreasing_by
  · simp
  · simp only [List.length_cons]; omega
  · have := length_continuation?_lt _h
    simp only [List.length_cons]; omega
  · simp only [List.length_drop, List.length_cons]; omega
  · simp

/-- The rest of a literal string over several lines. -/
def literalLines : Reader (List Char)
  | '\'' :: '\'' :: '\'' :: rest => some (lastQuotes '\'' rest)
  | '\n' :: rest => (literalLines rest).map fun (s, rest) => ('\n' :: s, rest)
  | '\r' :: '\n' :: rest => (literalLines rest).map fun (s, rest) => ('\n' :: s, rest)
  | c :: rest =>
      if isPlain c then (literalLines rest).map fun (s, rest) => (c :: s, rest) else none
  | [] => none

/-- A text without the line break at its front, if there is one. -/
def dropBreak (cs : List Char) : List Char := (lineBreak? cs).getD cs

/-! ## Strings -/

/-- A string of one line. -/
def lineString : Reader String
  | '"' :: rest => (quotedRest rest).map fun (s, rest) => (String.ofList s, rest)
  | '\'' :: rest => (literalRest rest).map fun (s, rest) => (String.ofList s, rest)
  | _ => none

/-- A string of any kind. -/
def string : Reader String
  | '"' :: '"' :: '"' :: rest =>
      (basicLines (dropBreak rest)).map fun (s, rest) => (String.ofList s, rest)
  | '\'' :: '\'' :: '\'' :: rest =>
      (literalLines (dropBreak rest)).map fun (s, rest) => (String.ofList s, rest)
  | cs => lineString cs

end Stencil.Settings.Toml
