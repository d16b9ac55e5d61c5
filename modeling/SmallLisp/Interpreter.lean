import SmallLisp.Evaluation
import SmallLisp.Reader.Stream

namespace SmallLisp

/-- How many lists can stand inside one another unless told otherwise. -/
def defaultLevels : Nat := 1000

/-- An interpreter: whether brackets have to match, and how many lists it follows into one another.
-/
structure Interpreter where
  strict : Bool
  levels : Nat := defaultLevels
  deriving DecidableEq

namespace Interpreter

def options (interpreter : Interpreter) : Reader.Options :=
  { strict := interpreter.strict, levels := interpreter.levels }

def read (interpreter : Interpreter) (source : String) : Outcome Value :=
  Reader.read interpreter.options source.toList

def evaluate (interpreter : Interpreter) (expression : Value) : Outcome Value :=
  SmallLisp.evaluate interpreter.levels expression

def render (interpreter : Interpreter) (value : Value) : Outcome String :=
  value.render interpreter.levels

def evaluateSource (interpreter : Interpreter) (source : String) : Outcome Value := do
  interpreter.evaluate (← interpreter.read source)

/-- The text of the value of the expression at the start of a source. -/
def answer (interpreter : Interpreter) (source : String) : Outcome String := do
  interpreter.render (← interpreter.evaluateSource source)

/-- The line that the user sees: the text of the value, or the failure. Defects remain faults. -/
def respond (interpreter : Interpreter) (source : String) : Outcome String :=
  match interpreter.answer source with
  | .error (.failure failure) => .ok failure.message
  | outcome => outcome

end Interpreter

end SmallLisp
