import Stencil.Text.Alphanumeric
import Stencil.Text.Blank
import Stencil.Text.LowerCase
import Stencil.Text.UpperCase

/-! # Spellings of a module name

    A module name is free text (`user`, `blog-post`, `Tax`); generated code
    spells it in several ways.  Every text has all spellings, none is refused. -/

namespace Stencil

open Text

/-- Whether a character separates the words of a name and is dropped. -/
def isSeparator (c : Char) : Bool :=
  c = '-' || c = '_' || isSpace c

/-- Joined words, the next character standing at the start of a word or not. -/
def joinWords (atStart : Bool) : List Char → List Char
  | [] => []
  | c :: rest =>
      if isSeparator c then joinWords true rest
      else if isAlphanumeric c then
        (if atStart then upperChar c else [c]) ++ joinWords false rest
      else c :: joinWords true rest

/-- The Pascal-case spelling: separators are dropped and the first letter or
    digit of each word is capitalised; the rest of a word stays as it is.  Any
    other character stays and ends a word. -/
def pascalCase (name : String) : String :=
  String.ofList (joinWords true name.toList)

/-- The plural: an `s` at the end, unless there is one. -/
def plural (word : String) : String :=
  if word.toList.getLast? = some 's' then word else word ++ "s"

/-- The name of the directory for the services of a module. -/
def servicesDirectory (name : String) : String :=
  pascalCase name ++ "Services"

/-- The spellings of one name. -/
structure Spellings where
  pascal : String
  lower : String
  upper : String
  pascalPlural : String
  lowerPlural : String
  services : String
deriving DecidableEq, Repr

/-- All spellings of a name. -/
def Spellings.of (name : String) : Spellings where
  pascal := pascalCase name
  lower := lowerCase name
  upper := upperCase name
  pascalPlural := plural (pascalCase name)
  lowerPlural := plural (lowerCase name)
  services := servicesDirectory name

end Stencil
