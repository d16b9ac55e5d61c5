import SmallLisp.Value

/-!
What can go wrong. A failure is an answer of the language, with a line that tells the user about it.
A defect is the embedding program's own mistake: it handed over something that is no value, or asked
for what a text does not hold.
-/

namespace SmallLisp

/-- A failure that the language reports. Failures about values keep the text of those values as it
was when the failure was raised. -/
inductive Failure
  | arity (expected : Int) (found : List Value) (shown : String)
  | mismatch (expected : String) (found : Value) (shown : String)
  /-- A text that does not read, with the place of the fault if it has one. -/
  | unreadable (details : String) (line column : Option Int)
  /-- An expression that is no form of the language. -/
  | badForm (problem : String) (form : Value) (shown : String)
  /-- A name that no function has. -/
  | notFunction (problem name : String)
  /-- A symbol that has no value. -/
  | unbound (problem name : String)
  | tooDeep
  | divisionByZero
  | tooLargeToRender
  | tooLargeToConvert
  /-- A failure of the embedding program's own. -/
  | other (message : String)
  deriving DecidableEq

def Failure.message : Failure → String
  | arity expected _ shown => "Expected " ++ expected.repr ++ " args: found values " ++ shown
  | mismatch expected _ shown => "Invalid type: expected " ++ expected ++ ", found " ++ shown
  | unreadable details _ _ => "Parse error at " ++ details
  | badForm problem _ shown => problem ++ ": " ++ shown
  | notFunction problem name => problem ++ ": \"" ++ name ++ "\""
  | unbound problem name => problem ++ ": " ++ name
  | tooDeep => "Expression nested too deeply"
  | divisionByZero => "Division by zero"
  | tooLargeToRender => "Integer too large to render"
  | tooLargeToConvert => "Integer too large to convert"
  | other message => message

/-- A mistake of the embedding program. -/
inductive Defect
  /-- A hole where a value has to be written. -/
  | absentValue
  /-- A backslash before a character that has no escape. -/
  | unknownEscape (char : Char)
  /-- A text that is not one character where a character is made of it. -/
  | notOneCharacter (text : String)
  deriving DecidableEq

/-- Why there is no answer. -/
inductive Fault
  | failure (reason : Failure)
  | defect (mistake : Defect)
  deriving DecidableEq

/-- An answer, or why there is none. -/
abbrev Outcome (α : Type) := Except Fault α

/-- No answer, by a failure of the language. -/
def Outcome.fail {α : Type} (failure : Failure) : Outcome α :=
  .error (.failure failure)

end SmallLisp
