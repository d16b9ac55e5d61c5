import SmallLisp.Binary64.Basic
import SmallLisp.Text.Category

namespace SmallLisp

/-- A value. An embedding program can leave a hole in one with `absent`; no text reads as a hole and
no expression evaluates to one unless it holds one already. -/
inductive Value
  | boolean (truth : Bool)
  | integer (number : Int)
  | decimal (number : Binary64)
  | text (content : String)
  | symbol (name : String)
  | character (char : Char)
  | list (items : List Value)
  | absent
  deriving Inhabited

namespace Value

mutual

def same : Value → Value → Bool
  | boolean a, boolean b => a = b
  | integer a, integer b => a = b
  | decimal a, decimal b => a = b
  | text a, text b => a = b
  | symbol a, symbol b => a = b
  | character a, character b => a = b
  | list as, list bs => sameItems as bs
  | absent, absent => true
  | _, _ => false

/-- Whether two lists of values are the same, position by position. -/
def sameItems : List Value → List Value → Bool
  | [], [] => true
  | a :: as, b :: bs => same a b && sameItems as bs
  | _, _ => false

end

mutual

theorem same_iff : ∀ a b : Value, same a b = true ↔ a = b
  | list as, b => by cases b <;> simp [same, sameItems_iff as]
  | boolean _, b => by cases b <;> simp [same]
  | integer _, b => by cases b <;> simp [same]
  | decimal _, b => by cases b <;> simp [same]
  | text _, b => by cases b <;> simp [same]
  | symbol _, b => by cases b <;> simp [same]
  | character _, b => by cases b <;> simp [same]
  | absent, b => by cases b <;> simp [same]

theorem sameItems_iff : ∀ as bs : List Value, sameItems as bs = true ↔ as = bs
  | [], bs => by cases bs <;> simp [sameItems]
  | a :: as, bs => by cases bs <;> simp [sameItems, same_iff a, sameItems_iff as]

end

instance : DecidableEq Value := fun a b =>
  decidable_of_iff (same a b = true) (same_iff a b)

def nested : Nat → Value → Value
  | 0, value => value
  | depth + 1, value => nested depth (list [value])

def quotation (expression : Value) : Value :=
  list [symbol "quote", expression]

end Value

namespace CharacterName

/-- The characters that are written by name. -/
def table : List (String × Char) :=
  [("space", ' '), ("newline", '\n'), ("return", '\r'), ("linefeed", '\x0c'), ("tab", '\t'),
   ("vtab", '\x0b'), ("backspace", '\x08')]

/-- The character of a name, whatever the case of its letters. -/
def char? (name : List Char) : Option Char :=
  table.lookup (String.ofList (name.map Text.lowerAscii))

def ofChar? (c : Char) : Option String :=
  (table.find? fun entry => entry.2 = c).map Prod.fst

/-- The text after the mark of a character: its name, or itself. -/
def spelling (c : Char) : List Char :=
  match ofChar? c with
  | some name => name.toList
  | none => [c]

end CharacterName

end SmallLisp
