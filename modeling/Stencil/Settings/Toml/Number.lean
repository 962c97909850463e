import Stencil.Settings.Toml.Lexical

/-! # Numbers of TOML

    Digits may be grouped by single underscores, and a decimal number has no
    leading zeros.  Whole numbers are those of 64 bits with a sign; a fraction
    must not be so large that it rounds to positive infinity. -/

namespace Stencil.Settings.Toml

/-! ## Digits -/

/-- What follows the digits and single underscores at the front of a text that
    comes after a digit. -/
def moreDigits? (isDigit : Char → Bool) : List Char → Option (List Char)
  | [] => some []
  | ['_'] => none
  | '_' :: c :: rest => if isDigit c then moreDigits? isDigit rest else none
  | c :: rest => if isDigit c then moreDigits? isDigit rest else some (c :: rest)

/-- What follows a group of digits, one at least. -/
def digits? (isDigit : Char → Bool) : List Char → Option (List Char)
  | [] => none
  | c :: rest => if isDigit c then moreDigits? isDigit rest else none

/-- A text without the sign at its front. -/
def dropSign : List Char → List Char
  | '+' :: rest => rest
  | '-' :: rest => rest
  | cs => cs

/-- What follows a decimal number with an optional sign. -/
def whole? (cs : List Char) : Option (List Char) :=
  match dropSign cs with
  | '0' :: rest => some rest
  | rest => digits? Char.isDigit rest

/-- The part of a text that was read when `rest` is left. -/
def readPart (cs rest : List Char) : List Char := cs.take (cs.length - rest.length)

/-- The number that digits of a base write; underscores are passed over. -/
def numberIn (base : Nat) (digits : List Char) : Nat :=
  (digits.filterMap hexValue?).foldl (fun n d => base * n + d) 0

/-! ## Whole numbers -/

/-- Whether a decimal number has a place among the 64-bit numbers with a sign. -/
def fitsDecimal (written : List Char) : Bool :=
  let size := numberIn 10 (dropSign written)
  if written.head? = some '-' then size ≤ Nat.pow 2 63 else size < Nat.pow 2 63

/-- A number in another base, its prefix read already. -/
def radixNumber (base : Nat) (isDigit : Char → Bool) : Reader String := fun cs => do
  let rest ← digits? isDigit cs
  guard (numberIn base (readPart cs rest) < Nat.pow 2 63)
  return (String.ofList (readPart cs rest), rest)

/-- A whole number. -/
def integer : Reader String
  | '0' :: 'x' :: rest => radixNumber 16 (fun c => (hexValue? c).isSome) rest
  | '0' :: 'o' :: rest => radixNumber 8 (fun c => '0' ≤ c ∧ c ≤ '7') rest
  | '0' :: 'b' :: rest => radixNumber 2 (fun c => c = '0' || c = '1') rest
  | cs => do
      let rest ← whole? cs
      guard (fitsDecimal (readPart cs rest))
      return (String.ofList (readPart cs rest), rest)

/-! ## Fractions -/

/-- What follows an exponent, if there is one. -/
def exponent? : List Char → Option (List Char)
  | 'e' :: rest => digits? Char.isDigit (dropSign rest)
  | 'E' :: rest => digits? Char.isDigit (dropSign rest)
  | cs => some cs

/-- What follows a fraction: a decimal number with a point, an exponent, or
    both. -/
def fraction? (cs : List Char) : Option (List Char) := do
  match ← whole? cs with
  | '.' :: rest => exponent? (← digits? Char.isDigit rest)
  | 'e' :: rest => exponent? ('e' :: rest)
  | 'E' :: rest => exponent? ('E' :: rest)
  | _ => none

/-- Whether `m · 10 ^ e` rounds to infinity in double precision, that is, lies at
    or above the middle between the largest number and the next power of two.
    Far from that the number of digits decides. -/
def isHuge (m : Nat) (e : Int) : Bool :=
  let bound := Nat.pow 2 1024 - Nat.pow 2 970
  let reach := ((Nat.toDigits 10 m).length : Int) + e
  if m = 0 then false
  else if 311 ≤ reach then true
  else if reach ≤ 308 then false
  else if 0 ≤ e then bound ≤ m * Nat.pow 10 e.toNat
  else bound * Nat.pow 10 (-e).toNat ≤ m

/-- Whether a written fraction rounds to positive infinity. -/
def overflows (written : List Char) : Bool :=
  let plain := written.filter (· ≠ '_')
  let unsigned := dropSign plain
  let intPart := unsigned.takeWhile Char.isDigit
  let afterInt := unsigned.dropWhile Char.isDigit
  let fracPart := if afterInt.head? = some '.' then (afterInt.drop 1).takeWhile Char.isDigit else []
  let expPart := ((unsigned.dropWhile fun c => c ≠ 'e' && c ≠ 'E').drop 1)
  let size : Int := numberIn 10 (dropSign expPart)
  let exponent : Int := if expPart.head? = some '-' then -size else size
  plain.head? != some '-' && isHuge (numberIn 10 (intPart ++ fracPart)) (exponent - fracPart.length)

/-- A fraction, or one of the words for infinity and for no number. -/
def float : Reader String := fun cs =>
  match fraction? cs with
  | some rest =>
      let written := readPart cs rest
      if overflows written then none else some (String.ofList written, rest)
  | none =>
      match dropSign cs with
      | 'i' :: 'n' :: 'f' :: rest => some ("inf", rest)
      | 'n' :: 'a' :: 'n' :: rest => some ("nan", rest)
      | _ => none

end Stencil.Settings.Toml
