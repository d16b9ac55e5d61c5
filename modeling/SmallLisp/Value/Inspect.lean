import SmallLisp.Fault
import SmallLisp.Text.CodePoint

namespace SmallLisp

/-- The line that tells a programmer about a mistake. -/
def Defect.message : Defect → String
  | absentValue => "Not a Ballgame value: None"
  | unknownEscape c => String.ofList (Text.Quoted.encode [c])
  | notOneCharacter text =>
    "Character expects exactly one char, got " ++ String.ofList (Text.Quoted.encode text.toList)

namespace Value

def ofCharacterText (text : String) : Outcome Value :=
  match text.toList with
  | [c] => .ok (character c)
  | _ => .error (.defect (.notOneCharacter text))

/-- The plain text of a symbol, a character or a text. -/
def plain? : Value → Option (List Char)
  | symbol name => some name.toList
  | character c => some ('#' :: '\\' :: CharacterName.spelling c)
  | text content => some content.toList
  | _ => none

/-- The text that shows a symbol, a character or a text together with its kind. -/
def inspect? : Value → Option (List Char)
  | symbol name => some ("Symbol(".toList ++ Text.Quoted.encode name.toList ++ [')'])
  | character c => some ("Character(".toList ++ Text.Quoted.encode [c] ++ [')'])
  | text content => some (Text.Quoted.encode content.toList)
  | _ => none

end Value

end SmallLisp
