import Stencil.Text.Ranges

/-! # Blanks

    Two notions of white space are in use.  Schema text and the values of
    variables separate by the five ASCII blanks; names are split and trimmed at
    every white space character there is. -/

namespace Stencil.Text

/-- The ASCII blanks: space, tab, line feed, form feed, carriage return. -/
def isBlank (c : Char) : Bool :=
  c = ' ' || c = '\t' || c = '\n' || c = '\x0c' || c = '\r'

/-- The code points that are white space. -/
def spaceRanges : Ranges :=
  [(0x9, 0xD), (0x20, 0x20), (0x85, 0x85), (0xA0, 0xA0), (0x1680, 0x1680),
    (0x2000, 0x200A), (0x2028, 0x2029), (0x202F, 0x202F), (0x205F, 0x205F),
    (0x3000, 0x3000)]

/-- Whether a character is white space. -/
def isSpace (c : Char) : Bool :=
  spaceRanges.has c

/-- A text without the white space at its ends. -/
def trimSpace (cs : List Char) : List Char :=
  ((cs.dropWhile isSpace).reverse.dropWhile isSpace).reverse

end Stencil.Text
