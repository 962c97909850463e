import Stencil.Schema.Block
import Stencil.Schema.Token

/-! # How schema text is written

    The shapes that schema text is made of, said without a scan: names, gaps of
    blanks, string literals, runs of nested brackets, bodies with balanced
    braces, fillers of blanks and comments, and whole blocks.

    Two shapes of bracketed text are told apart.  `Nested` is what an attribute
    may have between its parentheses: brackets of all three kinds match, and no
    comment starts.  `Balanced` is what the body of any block may be: braces
    match, and comments are ended by a newline. -/

namespace Stencil.Schema

open Stencil.Text (isBlank)

/-! ## Names and gaps -/

/-- A keyword or name: one or more letters, digits and underscores. -/
def IsName (cs : List Char) : Prop :=
  cs ≠ [] ∧ ∀ c ∈ cs, isNameChar c = true

/-- Blanks, or nothing. -/
def IsGap (cs : List Char) : Prop :=
  ∀ c ∈ cs, isBlank c = true

/-- Whether a character has no role but to stand in a token: it is no blank,
    quote, at sign, slash or bracket. -/
def isPlain (c : Char) : Bool :=
  !isBlank c && c ≠ '"' && c ≠ '@' && c ≠ '/'
    && !TokenScan.isOpening c && !TokenScan.isClosing c

/-- A word of one or more plain characters. -/
def IsWord (cs : List Char) : Prop :=
  cs ≠ [] ∧ ∀ c ∈ cs, isPlain c = true

-- A text is looked through; there are too many characters to try them all.

instance (cs : List Char) : Decidable (IsName cs) :=
  have := List.decidableBAll (isNameChar · = true) cs
  inferInstanceAs (Decidable (_ ∧ _))

instance (cs : List Char) : Decidable (IsGap cs) :=
  List.decidableBAll (isBlank · = true) cs

instance (cs : List Char) : Decidable (IsWord cs) :=
  have := List.decidableBAll (isPlain · = true) cs
  inferInstanceAs (Decidable (_ ∧ _))

/-! ## Literals and comments -/

/-- What may stand between the quotes of a string literal: a backslash takes the
    next character along. -/
inductive Quotable : List Char → Prop where
  | nil : Quotable []
  | plain {c : Char} {rest : List Char} :
      c ≠ '"' → c ≠ '\\' → Quotable rest → Quotable (c :: rest)
  | escaped {c : Char} {rest : List Char} :
      Quotable rest → Quotable ('\\' :: c :: rest)

/-- A filler: blanks and comments, each comment with the newline that ends it. -/
inductive Filler : List Char → Prop where
  | nil : Filler []
  | blank {c : Char} {rest : List Char} :
      isBlank c = true → Filler rest → Filler (c :: rest)
  | comment {text rest : List Char} :
      '\n' ∉ text → Filler rest → Filler ('/' :: '/' :: (text ++ '\n' :: rest))

/-! ## Brackets -/

/-- The kinds of brackets. -/
inductive Bracket where
  | round
  | square
  | curly
deriving DecidableEq, Repr

/-- The character that opens a run. -/
def Bracket.opening : Bracket → Char
  | .round => '('
  | .square => '['
  | .curly => '{'

/-- The character that closes a run. -/
def Bracket.closing : Bracket → Char
  | .round => ')'
  | .square => ']'
  | .curly => '}'

/-- Text whose brackets match, string literals closed and passed over, without a
    comment. -/
inductive Nested : List Char → Prop where
  | nil : Nested []
  | plain {c : Char} {rest : List Char} :
      c ≠ '"' → TokenScan.isOpening c = false → TokenScan.isClosing c = false →
      (c = '/' → rest.head? ≠ some '/') → Nested rest → Nested (c :: rest)
  | literal {inside rest : List Char} :
      Quotable inside → Nested rest → Nested ('"' :: (inside ++ '"' :: rest))
  | group (shape : Bracket) {inside rest : List Char} :
      Nested inside → Nested rest →
      Nested (shape.opening :: (inside ++ shape.closing :: rest))

/-- Text whose braces match, string literals and comments closed and passed
    over. -/
inductive Balanced : List Char → Prop where
  | nil : Balanced []
  | plain {c : Char} {rest : List Char} :
      c ≠ '"' → c ≠ '{' → c ≠ '}' → (c = '/' → rest.head? ≠ some '/') →
      Balanced rest → Balanced (c :: rest)
  | literal {inside rest : List Char} :
      Quotable inside → Balanced rest → Balanced ('"' :: (inside ++ '"' :: rest))
  | comment {text rest : List Char} :
      '\n' ∉ text → Balanced rest → Balanced ('/' :: '/' :: (text ++ '\n' :: rest))
  | braces {inside rest : List Char} :
      Balanced inside → Balanced rest → Balanced ('{' :: (inside ++ '}' :: rest))

/-! ## Tokens -/

/-- Plain characters and runs in brackets, one after the other. -/
inductive Solid : List Char → Prop where
  | nil : Solid []
  | plain {c : Char} {rest : List Char} :
      isPlain c = true → Solid rest → Solid (c :: rest)
  | group (shape : Bracket) {inside rest : List Char} :
      Nested inside → Solid rest →
      Solid (shape.opening :: (inside ++ shape.closing :: rest))

/-- A token: a solid text, after one at sign if it is an attribute of what stands
    before it, after two if it is one of the whole block. -/
def IsToken (token : List Char) : Prop :=
  ∃ sign solid : List Char, (sign = [] ∨ sign = ['@'] ∨ sign = ['@', '@'])
    ∧ solid ≠ [] ∧ Solid solid ∧ token = sign ++ solid

/-! ## Blocks -/

/-- The texts that are a block of a kind, name and body. -/
def Written (kind : BlockKind) (name body text : List Char) : Prop :=
  ∃ gap gap' : List Char, gap ≠ [] ∧ IsGap gap ∧ IsName name ∧ IsGap gap' ∧
    text = kind.keyword.toList ++ (gap ++ (name ++ (gap' ++ '{' :: (body ++ ['}']))))

end Stencil.Schema
