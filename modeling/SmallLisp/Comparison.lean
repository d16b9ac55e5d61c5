import SmallLisp.Coercion

namespace SmallLisp.Comparison

/-- Whether a comparison holds at every position of two lists; it is asked from the left, and no
further than the first place where it does not hold. -/
def everywhere (compare : Value → Value → Outcome Bool) : List Value → List Value → Outcome Bool
  | left :: lefts, right :: rights => do
    if ← compare left right then everywhere compare lefts rights else return false
  | _, _ => .ok true

/-- Whether two values are of the same kind and content. Decimals, characters and holes are equal to
nothing, not even to themselves. -/
def strict : Nat → Value → Value → Outcome Bool
  | 0, .list _, .list _ => .fail .tooDeep
  | levels + 1, .list lefts, .list rights =>
    if lefts.length = rights.length then everywhere (strict levels) lefts rights else .ok false
  | _, .boolean a, .boolean b => .ok (a = b)
  | _, .integer a, .integer b => .ok (a = b)
  | _, .text a, .text b => .ok (a = b)
  | _, .symbol a, .symbol b => .ok (a = b)
  | _, _, _ => .ok false

/-- Whether two values are taken for the same thing. A value that cannot be taken for such a thing
at all agrees with none; any other fault remains one. -/
def agree {α : Type} [DecidableEq α] (take : Value → Outcome α) (left right : Value) :
    Outcome Bool :=
  match (do return decide ((← take left) = (← take right))) with
  | .error (.failure (.mismatch ..)) => .ok false
  | outcome => outcome

/-- Whether two values agree as numbers, as texts or as truth values, or are strictly equal, asked
in this order. -/
def loosely (levels : Nat) (left right : Value) : Outcome Bool := do
  if ← agree (Coercion.number levels) left right then return true
  if ← agree (Coercion.text levels) left right then return true
  if ← agree (Coercion.boolean levels) left right then return true
  strict levels left right

/-- Whether two values are loosely equal; lists are so position by position. -/
def loose : Nat → Value → Value → Outcome Bool
  | 0, .list _, .list _ => .fail .tooDeep
  | levels + 1, .list lefts, .list rights =>
    if lefts.length = rights.length then everywhere (loose levels) lefts rights else .ok false
  | levels, left, right => loosely levels left right

end SmallLisp.Comparison
