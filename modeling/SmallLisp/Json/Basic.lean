import SmallLisp.Binary64.Layout
import SmallLisp.Text.CodePoint

namespace SmallLisp

/-- A value of the notation. Members of an object keep the order in which they came. -/
inductive Json
  | null
  | boolean (truth : Bool)
  | integer (number : Int)
  | decimal (number : Binary64)
  | string (points : List Text.CodePoint)
  | array (items : List Json)
  | object (members : List (List Text.CodePoint × Json))
  deriving Inhabited

namespace Json

open Text

def ofString (text : String) : Json :=
  string (CodePoint.ofText text.toList)

/-- Puts a member into an object. A name that is there already keeps its place and gets the new
value. -/
def setMember (name : List CodePoint) (value : Json) :
    List (List CodePoint × Json) → List (List CodePoint × Json)
  | [] => [(name, value)]
  | (other, old) :: members =>
    if other = name then (name, value) :: members
    else (other, old) :: setMember name value members

def member? (name : String) (members : List (List CodePoint × Json)) : Option Json :=
  members.lookup (CodePoint.ofText name.toList)

mutual

/-- The text that names a value, its strings between quotes. -/
def describe : Json → List Char
  | null => "None".toList
  | boolean truth => (if truth then "True" else "False").toList
  | integer number => number.repr.toList
  | decimal number => number.text
  | string points => Quoted.encodePoints points
  | array items => '[' :: describeItems items ++ [']']
  | object members => '\x7b' :: describeMembers members ++ ['\x7d']

/-- The texts of items with commas between them. -/
def describeItems : List Json → List Char
  | [] => []
  | [item] => describe item
  | item :: items => describe item ++ [',', ' '] ++ describeItems items

/-- The texts of members with commas between them. -/
def describeMembers : List (List CodePoint × Json) → List Char
  | [] => []
  | [(name, value)] => Quoted.encodePoints name ++ [':', ' '] ++ describe value
  | (name, value) :: members =>
    Quoted.encodePoints name ++ [':', ' '] ++ describe value ++ [',', ' '] ++
      describeMembers members

end

/-- The text that names a value; a string stands for itself. -/
def describeBare : Json → List CodePoint
  | string points => points
  | value => CodePoint.ofText value.describe

end Json

end SmallLisp
