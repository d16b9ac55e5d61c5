import SmallLisp.Json.Token

namespace SmallLisp.Json

open Text

/-- Why a text has no value. -/
inductive Fault
  | malformed
  | tooDeep
  deriving DecidableEq

/-- An array or object that is still open and waits for a value. The items of an array are held
latest first. -/
inductive Frame
  | array (items : List Json)
  | object (members : List (List CodePoint × Json)) (name : List CodePoint)

/-- What the reader waits for, inside the arrays and objects that are open, the innermost first. -/
inductive Pending
  | wanted (stack : List Frame)
  /-- The first item of an array, or its end. -/
  | firstItem (stack : List Frame)
  /-- A comma or the end of an array. -/
  | afterItem (items : List Json) (stack : List Frame)
  /-- The first name of an object, or its end. -/
  | firstName (stack : List Frame)
  | nextName (members : List (List CodePoint × Json)) (stack : List Frame)
  /-- The colon after a name. -/
  | colon (members : List (List CodePoint × Json)) (name : List CodePoint) (stack : List Frame)
  /-- A comma or the end of an object. -/
  | afterMember (members : List (List CodePoint × Json)) (stack : List Frame)
  | done (value : Json)

namespace Pending

/-- A value put into the innermost open array or object. -/
def complete (value : Json) : List Frame → Pending
  | [] => done value
  | .array items :: stack => afterItem (value :: items) stack
  | .object members name :: stack => afterMember (setMember name value members) stack

/-- A token where a value has to start. At most `levels` arrays and objects can be open. -/
def begin (levels : Nat) (stack : List Frame) : Token → Except Fault Pending
  | .openArray => if stack.length < levels then .ok (firstItem stack) else .error .tooDeep
  | .openObject => if stack.length < levels then .ok (firstName stack) else .error .tooDeep
  | .string points => .ok (complete (.string points) stack)
  | .leaf value => .ok (complete value stack)
  | _ => .error .malformed

def step (levels : Nat) : Pending → Token → Except Fault Pending
  | wanted stack, token => begin levels stack token
  | firstItem stack, .closeArray => .ok (complete (.array []) stack)
  | firstItem stack, token => begin levels (.array [] :: stack) token
  | afterItem items stack, .comma => .ok (wanted (.array items :: stack))
  | afterItem items stack, .closeArray => .ok (complete (.array items.reverse) stack)
  | firstName stack, .closeObject => .ok (complete (.object []) stack)
  | firstName stack, .string name => .ok (colon [] name stack)
  | nextName members stack, .string name => .ok (colon members name stack)
  | colon members name stack, .colon => .ok (wanted (.object members name :: stack))
  | afterMember members stack, .comma => .ok (nextName members stack)
  | afterMember members stack, .closeObject => .ok (complete (.object members) stack)
  | _, _ => .error .malformed

/-- The value, if the text may end here. -/
def finish : Pending → Except Fault Json
  | done value => .ok value
  | _ => .error .malformed

end Pending

/-- The value of a text, with at most `levels` arrays and objects inside one another. -/
def decode (levels : Nat) (text : List Char) : Except Fault Json := do
  let pending ← (tokens text).foldlM (Pending.step levels) (.wanted [])
  pending.finish

end SmallLisp.Json
