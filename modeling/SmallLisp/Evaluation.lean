import SmallLisp.Primitive

/-!
Evaluation. There are no variables: an expression is a value that evaluates to itself, one of two
special forms, or a primitive applied to arguments. Evaluation goes down one level for each list.
-/

namespace SmallLisp

inductive Form
  | quotation (expression : Value)
  | choice (condition consequent alternative : Value)
  | application (name : String) (args : List Value)

/-- The form of a name and what follows it. A special form has its own count of arguments; with any
other count its name is that of a function. -/
def Form.of (name : String) (args : List Value) : Form :=
  match args with
  | [expression] => if name = "quote" then .quotation expression else .application name args
  | [condition, consequent, alternative] =>
    if name = "if" then .choice condition consequent alternative else .application name args
  | _ => .application name args

/-- The value of an expression that has at most `levels` lists inside one another. The arguments of
a function are evaluated from the left before the function is looked up. -/
def evaluate : Nat → Value → Outcome Value
  | 0, .list (.symbol _ :: _) => .fail .tooDeep
  | levels + 1, .list (.symbol head :: tail) =>
    match Form.of head tail with
    | .quotation expression => .ok expression
    | .choice condition consequent alternative => do
      match ← evaluate levels condition with
      | .boolean false => evaluate levels alternative
      | _ => evaluate levels consequent
    | .application name args => do
      applyNamed levels name (← args.mapM (evaluate levels))
  | _, .boolean truth => .ok (.boolean truth)
  | _, .integer number => .ok (.integer number)
  | _, .decimal number => .ok (.decimal number)
  | _, .text content => .ok (.text content)
  | _, .character char => .ok (.character char)
  | levels, form => .raise (Failure.unrecognizedForm levels "Unrecognized special form" form)

end SmallLisp
