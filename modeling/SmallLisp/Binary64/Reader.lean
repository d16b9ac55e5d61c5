import SmallLisp.Binary64.Basic
import SmallLisp.Text.Numeral

namespace SmallLisp.Binary64

open Text

/-- The number with the given whole digits, digits after the point, and exponent. -/
def ofParts (negative : Bool) (whole fraction : List Char) (exponent : Int) : Binary64 :=
  ofDecimal negative (decimalValue (whole ++ fraction)) (exponent - fraction.length)

/-- The digits after a point, if one stands here, and the text after them. -/
def takeFraction : List Char → List Char × List Char
  | '.' :: rest => rest.span isDigit
  | rest => ([], rest)

/-- A whole exponent: nothing, or a mark, a sign and digits up to the end. -/
def exponent? : List Char → Option Int
  | [] => some 0
  | mark :: rest =>
    let (negative, digits) := takeSign rest
    if (mark = 'e' ∨ mark = 'E') ∧ digits ≠ [] ∧ digits.all isDigit then
      let value := decimalValue digits
      some (if negative then -value else value)
    else none

/-- A numeral without its sign. -/
def unsigned? (negative : Bool) (text : List Char) : Option Binary64 :=
  let (whole, rest) := text.span isDigit
  let (fraction, rest) := takeFraction rest
  if whole = [] ∧ fraction = [] then none
  else (exponent? rest).map (ofParts negative whole fraction)

/-- The number that a text names, blanks around it and underscores between digits allowed. -/
def parse? (text : List Char) : Option Binary64 :=
  let plain := (text.map plainNumeral).dropWhile isPlainBlank
  let plain := (plain.reverse.dropWhile isPlainBlank).reverse
  match ungroup false plain with
  | none => none
  | some numeral =>
    let (negative, rest) := takeSign numeral
    let word := String.ofList (rest.map Char.toLower)
    if word = "inf" ∨ word = "infinity" then some (infinite negative)
    else if word = "nan" then some nan
    else unsigned? negative rest

end SmallLisp.Binary64
