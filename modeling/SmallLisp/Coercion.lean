import SmallLisp.Text.Pattern
import SmallLisp.Value.Rendering

namespace SmallLisp

/-- The whole number that a text starts with. -/
inductive LeadingInteger
  | missing
  | overlong
  | found (number : Int)
  deriving DecidableEq

namespace LeadingInteger

open Text

/-- The named parts of a numeral. -/
inductive Part
  | sign
  | hex
  | octal
  | decimal
  deriving DecidableEq

/-- A zero, the letter of a base in either case, and digits of the base. -/
def based (lower upper : Char) (name : Part) (isDigit : Char → Bool) : Pattern Part :=
  .sequence (.one (· = '0'))
    (.sequence (.one fun c => c = lower || c = upper) (.named name (.oneOrMore isDigit)))

/-- What decimal digits cannot be followed by: another digit, or what makes them the start of a
fraction or an exponent. -/
def runsOn : Pattern Part :=
  .either (.one isDigit)
    (.either (.sequence (.one (· = '.')) (.one isDigit))
      (.sequence (.one fun c => c = 'e' || c = 'E')
        (.sequence (.optional (.one fun c => c = '+' || c = '-')) (.one isDigit))))

/-- A numeral without a sign: hexadecimal after `0x`, octal after `0o`, decimal otherwise. -/
def unsigned : Pattern Part :=
  .either (based 'x' 'X' .hex isHexDigit)
    (.either (based 'o' 'O' .octal isOctalDigit)
      (.sequence (.named .decimal (.oneOrMore isDigit)) (.notBefore runsOn)))

/-- A numeral after blanks and a minus sign. -/
def numeral : Pattern Part :=
  .sequence (.many isBlank) (.sequence (.named .sign (.optional (.one (· = '-')))) unsigned)

/-- The magnitude of a numeral. Only decimal digits can be too many. -/
def magnitude (way : Match Part) : LeadingInteger :=
  if way.part .hex ≠ [] then .found (hexValue (way.part .hex))
  else if way.part .octal ≠ [] then .found (octalValue (way.part .octal))
  else if (way.part .decimal).length ≤ digitLimit then
    .found (decimalValue (way.part .decimal))
  else overlong

def negate : LeadingInteger → LeadingInteger
  | found number => found (-number)
  | other => other

/-- The number that a text starts with. -/
def ofText (text : List Char) : LeadingInteger :=
  match numeral.firstWay? text with
  | some way => if way.part .sign ≠ [] then (magnitude way).negate else magnitude way
  | none => missing

end LeadingInteger

namespace Coercion

/-- No answer, since a value is not of the wanted kind. -/
def refuse {α : Type} (levels : Nat) (wanted : String) (value : Value) : Outcome α :=
  .raise (Failure.wrongKind levels wanted value)

/-- The whole number that a value is, that its text starts with, or that the only element of a list
gives. -/
def number : Nat → Value → Outcome Int
  | _, .integer n => .ok n
  | levels, .text content =>
    match LeadingInteger.ofText content.toList with
    | .found n => .ok n
    | .overlong => .fail .tooLargeToConvert
    | .missing => refuse levels "number" (.text content)
  | 0, .list [_] => .fail .tooDeep
  | levels + 1, .list [item] => number levels item
  | levels, other => refuse levels "number" other

/-- The text that a value is; whole numbers and truth values have one too. -/
def text (levels : Nat) : Value → Outcome (List Char)
  | .text content => .ok content.toList
  | .boolean truth => .ok (if truth then "True" else "False").toList
  | .integer n => integerText n
  | other => refuse levels "string" other

def boolean (levels : Nat) : Value → Outcome Bool
  | .boolean truth => .ok truth
  | other => refuse levels "boolean" other

end Coercion

end SmallLisp
