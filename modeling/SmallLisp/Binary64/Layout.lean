import SmallLisp.Binary64.Shortest

namespace SmallLisp.Binary64

structure Layout where
  /-- The least exponent of the first digit that is written positionally. -/
  least : Int
  /-- The first exponent above those that are written positionally. -/
  bound : Int
  /-- The least count of digits of a written exponent. -/
  exponentDigits : Nat

/-- Positional from `10 ^ -4` up to `10 ^ 16`, exponents of two digits. -/
def layout : Layout := ⟨-4, 16, 2⟩

/-- An exponent with its sign and its least count of digits. -/
def exponentText (layout : Layout) (exponent : Int) : List Char :=
  let digits := Nat.toDigits 10 exponent.natAbs
  (if exponent < 0 then '-' else '+') ::
    (List.replicate (layout.exponentDigits - digits.length) '0' ++ digits)

/-- Digits with a point after `point` of them, filled with zeros on either side. -/
def positional (digits : List Char) (point : Int) : List Char :=
  match point with
  | .ofNat places =>
    if places = 0 then ['0', '.'] ++ digits
    else
      let whole := digits.take places
      let fraction := digits.drop places
      whole ++ List.replicate (places - whole.length) '0' ++ '.' ::
        (if fraction.isEmpty then ['0'] else fraction)
  | .negSucc zeros => ['0', '.'] ++ List.replicate (zeros + 1) '0' ++ digits

/-- Digits with a point after the first of them if more follow, and the exponent. -/
def scientific (layout : Layout) (digits : List Char) (exponent : Int) : List Char :=
  let fraction := digits.drop 1
  digits.take 1 ++ (if fraction.isEmpty then [] else '.' :: fraction) ++
    'e' :: exponentText layout exponent

/-- The digits of a decimal number without the zeros at their end. -/
def significant (digits : List Char) : List Char :=
  (digits.reverse.dropWhile (· = '0')).reverse

def decimalText (layout : Layout) (decimal : Decimal) : List Char :=
  let digits := significant decimal.digits
  if layout.least ≤ decimal.point - 1 ∧ decimal.point - 1 < layout.bound then
    positional digits decimal.point
  else scientific layout digits (decimal.point - 1)

def text : Binary64 → List Char
  | finite negative units =>
    let magnitude := if units = 0 then ['0', '.', '0'] else decimalText layout (shortest units)
    if negative then '-' :: magnitude else magnitude
  | infinite negative => if negative then ['-', 'i', 'n', 'f'] else ['i', 'n', 'f']
  | nan => ['n', 'a', 'n']

end SmallLisp.Binary64
