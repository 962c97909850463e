import Stencil.Settings.Quoted

/-! # Blanks, comments and line ends of TOML

    The small parts between keys and values. -/

namespace Stencil.Settings.Toml

/-- Whether a character is a blank within a line. -/
def isGap (c : Char) : Bool := c = ' ' || c = '\t'

/-- A text without the blanks at its front. -/
def skipGap (cs : List Char) : List Char := cs.dropWhile isGap

/-- What follows a line break. -/
def lineBreak? : List Char → Option (List Char)
  | '\n' :: rest => some rest
  | '\r' :: '\n' :: rest => some rest
  | _ => none

/-- What follows the end of a line: blanks, perhaps a comment, and a line break
    or the end of the text. -/
def lineEnd? (cs : List Char) : Option (List Char) :=
  let rest :=
    match skipGap cs with
    | '#' :: comment => comment.dropWhile isPlain
    | rest => rest
  match rest with
  | [] => some []
  | rest => lineBreak? rest

/-- What follows the blanks, line breaks and whole comments at the front of a
    text, read inside of a comment or not. -/
def skipLines? (inComment : Bool) : List Char → Option (List Char)
  | [] => if inComment then none else some []
  | '\n' :: rest => skipLines? false rest
  | '\r' :: '\n' :: rest => skipLines? false rest
  | c :: rest =>
      if inComment then
        if isPlain c then skipLines? true rest else none
      else if isGap c then skipLines? false rest
      else if c = '#' then skipLines? true rest
      else if c = '\r' then none
      else some (c :: rest)

end Stencil.Settings.Toml
