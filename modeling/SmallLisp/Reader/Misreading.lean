import SmallLisp.Fault
import SmallLisp.Text.Lines
import SmallLisp.Token

namespace SmallLisp.Reader

inductive Found
  | endOfInput
  | blank
  | malformedText
  | token (text : List Char)
  deriving DecidableEq

def Found.ofToken (token : Token) : Found :=
  match token.kind with
  | .blank => .blank
  | .stray => if token.text = ['"'] then .malformedText else .token token.text
  | _ => .token token.text

inductive Expected
  | expression
  | blankOrClosing
  | closing (bracket : Bracket)
  deriving DecidableEq

inductive Misreading
  | unexpected (found : Found) (expected : Expected)
  | unknownCharacterName (name : List Char)
  | literalTooLong (digits : Nat)
  deriving DecidableEq

def Found.text : Found → String
  | endOfInput => "end of input"
  | blank => "whitespace"
  | malformedText => "malformed string literal"
  | token text => "\"" ++ String.ofList text ++ "\""

def Expected.text : Expected → String
  | expression => "expression"
  | blankOrClosing => "space or closing bracket"
  | closing bracket => "\"" ++ String.ofList [bracket.closing] ++ "\""

def Misreading.text : Misreading → String
  | unexpected found expected => "unexpected " ++ found.text ++ "; expecting " ++ expected.text
  | unknownCharacterName name => "unknown character name \"" ++ String.ofList name ++ "\""
  | literalTooLong digits => "integer literal too long (" ++ digits.repr ++ " digits)"

/-- Why reading stopped. -/
inductive Stop
  /-- The source is at fault, at an offset. -/
  | misread (cause : Misreading) (offset : Nat)
  | tooDeep
  | defect (mistake : Defect)
  deriving DecidableEq

def Misreading.failure (source : List Char) (cause : Misreading) (offset : Nat) : Failure :=
  let place := Text.position source offset
  .unreadable
    ("\"lisp\" (line " ++ place.line.repr ++ ", column " ++ place.column.repr ++ "): " ++
      cause.text)
    (some place.line) (some place.column)

/-- What a stop is to the caller, who knows the whole source. -/
def Stop.fault (source : List Char) : Stop → Fault
  | .misread cause offset => .failure (cause.failure source offset)
  | .tooDeep => .failure .tooDeep
  | .defect mistake => .defect mistake

end SmallLisp.Reader
