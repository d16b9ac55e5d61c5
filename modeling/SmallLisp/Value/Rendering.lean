import SmallLisp.Binary64.Layout
import SmallLisp.Fault
import SmallLisp.Text.Numeral

/-!
The text of values. Rendering goes down one level for each list and gives up when its levels are
used up; failures that show values are made here, since rendering them can itself fail.
-/

namespace SmallLisp

/-- The decimal text of a whole number within the digit limit. -/
def integerText (number : Int) : Outcome (List Char) :=
  if number.natAbs < Nat.pow 10 Text.digitLimit then .ok number.repr.toList
  else .fail .tooLargeToRender

namespace Value

/-- The characters of a value's text, with `levels` lists inside one another at the most. -/
def chars : Nat → Value → Outcome (List Char)
  | _, boolean truth => .ok ['#', if truth then 't' else 'f']
  | _, integer number => integerText number
  | _, decimal number => .ok number.text
  | _, text content => .ok ('"' :: content.toList ++ ['"'])
  | _, symbol name => .ok name.toList
  | _, character char => .ok ('#' :: '\\' :: CharacterName.spelling char)
  | 0, list _ => .fail .tooDeep
  | levels + 1, list items => do
    let parts ← items.mapM (chars levels)
    return '(' :: [' '].intercalate parts ++ [')']
  | _, absent => .error (.defect .absentValue)

def render (levels : Nat) (value : Value) : Outcome String :=
  (value.chars levels).map String.ofList

def renderAll (levels : Nat) (values : List Value) : Outcome String := do
  let parts ← values.mapM (chars levels)
  return String.ofList ([' '].intercalate parts)

end Value

namespace Failure

/-- The failure about a wrong count of arguments, which are shown. -/
def wrongArity (levels : Nat) (expected : Int) (found : List Value) : Outcome Failure :=
  (Value.renderAll levels found).map (arity expected found)

/-- The failure about a value of the wrong kind, which is shown. -/
def wrongKind (levels : Nat) (expected : String) (found : Value) : Outcome Failure :=
  (found.render levels).map (mismatch expected found)

/-- The failure about an expression that is no form, which is shown. -/
def unrecognizedForm (levels : Nat) (problem : String) (form : Value) : Outcome Failure :=
  (form.render levels).map (badForm problem form)

end Failure

/-- No answer, by a failure that still has to be made; when making it goes wrong, by that fault. -/
def Outcome.raise {α : Type} (failure : Outcome Failure) : Outcome α :=
  failure.bind Outcome.fail

end SmallLisp
