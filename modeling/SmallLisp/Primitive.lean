import SmallLisp.Arithmetic
import SmallLisp.Comparison

namespace SmallLisp

inductive Connective
  | both
  | either
  deriving DecidableEq

inductive Primitive
  | fold (operation : Arithmetic)
  | compareNumbers (relation : Relation)
  | compareTexts (relation : Relation)
  | connect (connective : Connective)
  | headOf
  | tailOf
  | prepend
  | strictlyEqual
  | looselyEqual
  deriving DecidableEq

namespace Primitive

def table : List (String × Primitive) :=
  [("+", .fold .add), ("*", .fold .multiply), ("-", .fold .subtract), ("/", .fold .divide),
   ("mod", .fold .modulo), ("quotient", .fold .quotient), ("remainder", .fold .remainder),
   ("=", .compareNumbers .equal), ("<", .compareNumbers .less), (">", .compareNumbers .greater),
   ("!=", .compareNumbers .notEqual), (">=", .compareNumbers .atLeast),
   ("<=", .compareNumbers .atMost), ("and", .connect .both), ("or", .connect .either),
   ("string=?", .compareTexts .equal), ("string>?", .compareTexts .greater),
   ("string<?", .compareTexts .less), ("string<=?", .compareTexts .atMost),
   ("string>=?", .compareTexts .atLeast), ("car", .headOf), ("cdr", .tailOf), ("cons", .prepend),
   ("eq?", .strictlyEqual), ("eqv?", .strictlyEqual), ("equal?", .looselyEqual)]

def ofName? (name : String) : Option Primitive :=
  table.lookup name

/-- No answer, since the count of arguments is wrong. -/
def refuseCount {α : Type} (levels : Nat) (expected : Int) (args : List Value) : Outcome α :=
  .raise (Failure.wrongArity levels expected args)

/-- The fold of an operation over numbers, from the left. -/
def foldNumbers (operation : Arithmetic) (first : Int) (others : List Int) : Outcome Value :=
  match others.foldlM operation.apply? first with
  | some result => .ok (.integer result)
  | none => .fail .divisionByZero

/-- An operation folded over two arguments or more, all of which are taken for numbers first. -/
def applyFold (operation : Arithmetic) (levels : Nat) (args : List Value) : Outcome Value :=
  match args with
  | left :: right :: others => do
    let first ← Coercion.number levels left
    foldNumbers operation first (← (right :: others).mapM (Coercion.number levels))
  | _ => refuseCount levels 2 args

/-- A test of exactly two arguments, which are taken for the same kind of thing first. -/
def applyTest {α : Type} (take : Nat → Value → Outcome α) (test : α → α → Bool) (levels : Nat)
    (args : List Value) : Outcome Value :=
  match args with
  | [left, right] => do
    let a ← take levels left
    let b ← take levels right
    return .boolean (test a b)
  | _ => refuseCount levels 2 args

def applyHead (levels : Nat) (args : List Value) : Outcome Value :=
  match args with
  | [.list (first :: _)] => .ok first
  | [other] => Coercion.refuse levels "pair" other
  | _ => refuseCount levels 1 args

/-- A list that has a first element, without it. -/
def applyTail (levels : Nat) (args : List Value) : Outcome Value :=
  match args with
  | [.list (_ :: rest)] => .ok (.list rest)
  | [other] => Coercion.refuse levels "pair" other
  | _ => refuseCount levels 1 args

/-- A value put before the elements of a list, or two values as a list. -/
def applyPrepend (levels : Nat) (args : List Value) : Outcome Value :=
  match args with
  | [first, .list rest] => .ok (.list (first :: rest))
  | [first, second] => .ok (.list [first, second])
  | _ => refuseCount levels 2 args

def applyComparison (compare : Nat → Value → Value → Outcome Bool) (levels : Nat)
    (args : List Value) : Outcome Value :=
  match args with
  | [left, right] => (compare levels left right).map .boolean
  | _ => refuseCount levels 2 args

def apply : Primitive → Nat → List Value → Outcome Value
  | fold operation => applyFold operation
  | compareNumbers relation =>
    applyTest Coercion.number fun a b => relation.holds (orderNumbers a b)
  | compareTexts relation => applyTest Coercion.text fun a b => relation.holds (orderTexts a b)
  | connect .both => applyTest Coercion.boolean (· && ·)
  | connect .either => applyTest Coercion.boolean (· || ·)
  | headOf => applyHead
  | tailOf => applyTail
  | prepend => applyPrepend
  | strictlyEqual => applyComparison Comparison.strict
  | looselyEqual => applyComparison Comparison.loose

end Primitive

def applyNamed (levels : Nat) (name : String) (args : List Value) : Outcome Value :=
  match Primitive.ofName? name with
  | some primitive => primitive.apply levels args
  | none => .fail (.notFunction "Unrecognized primitive function args" name)

end SmallLisp
