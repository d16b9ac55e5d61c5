import SmallLisp.Text.CodePoint
import SmallLisp.Text.Lines
import SmallLisp.Text.Numeral

namespace SmallLisp

/-- The settings as they are found; none where a setting is not made. -/
structure Settings where
  prompt : Option String := none
  quit : Option String := none
  strictBrackets : Option String := none
  host : Option String := none
  tcpPort : Option String := none
  logLevel : Option String := none
  deriving DecidableEq

structure Endpoint where
  host : String
  tcpPort : Int
  deriving DecidableEq

/-- Why a text does not number an endpoint. -/
inductive EndpointError
  | malformed (text : String)
  | tooManyDigits (digits : Nat)
  deriving DecidableEq

/-- The line that reports a bad number of an endpoint. A long text is cut. -/
def EndpointError.message : EndpointError → String
  | malformed text =>
    "invalid literal for int() with base 10: " ++
      String.ofList ((Text.Quoted.encode text.toList).take 200)
  | tooManyDigits digits =>
    "Exceeds the limit (4300 digits) for integer string conversion: value has " ++ digits.repr ++
      " digits; use sys.set_int_max_str_digits() to increase the limit"

namespace Settings

open Text

def promptText (settings : Settings) : String :=
  settings.prompt.getD ":) "

/-- The line that ends the dialogue. -/
def quitCommand (settings : Settings) : String :=
  settings.quit.getD "quit"

/-- What a setting says that is either on or off. One that is not made or blank leaves it open. -/
def flag (setting : Option String) (default : Bool) : Bool :=
  match setting with
  | none => default
  | some text =>
    let word := trim text.toList
    if word = [] then default
    else ["1", "true", "yes", "on"].contains (String.ofList (word.map lowerAscii))

/-- Whether brackets have to match. -/
def strict (settings : Settings) : Bool :=
  flag settings.strictBrackets false

/-- The number that a text is: blanks around it, a sign, and digits of any script with single
underscores between them. -/
def wholeNumber (text : String) : Except EndpointError Int :=
  let (negative, body) := takeSign ((text.toList.map plainNumeral).dropWhile isPlainBlank)
  let numeral := body.takeWhile fun c => isDigit c || c = '_'
  let rest := body.dropWhile fun c => isDigit c || c = '_'
  match ungroup false numeral with
  | none => .error (.malformed text)
  | some digits =>
    if digits = [] then .error (.malformed text)
    else if digitLimit < digits.length then .error (.tooManyDigits digits.length)
    else if rest.all isPlainBlank then
      let value : Int := decimalValue digits
      .ok (if negative then -value else value)
    else .error (.malformed text)

/-- Where the server listens unless it is told otherwise. -/
def endpoint (settings : Settings) : Except EndpointError Endpoint := do
  let host := settings.host.getD "127.0.0.1"
  let number := settings.tcpPort.getD ""
  if trim number.toList = [] then return { host, tcpPort := 8765 }
  return { host, tcpPort := ← wholeNumber number }

/-- Where a server listens that is told a part of it. An empty host and the number zero count as not
told; a bad setting is refused even where it is not needed. -/
def endpointOr (settings : Settings) (host : Option String) (tcpPort : Option Int) :
    Except EndpointError Endpoint := do
  let usual ← settings.endpoint
  return {
    host := (host.filter (· ≠ "")).getD usual.host
    tcpPort := (tcpPort.filter (· ≠ 0)).getD usual.tcpPort }

/-- The levels of logging by name. -/
def logLevels : List (String × Nat) :=
  [("CRITICAL", 50), ("FATAL", 50), ("ERROR", 40), ("WARN", 30), ("WARNING", 30), ("INFO", 20),
   ("DEBUG", 10), ("NOTSET", 0)]

/-- The level of logging: that of the given name, else that of the setting, else the one for
warnings. -/
def logLevelOr (settings : Settings) (override : Option String) : Nat :=
  let given := (override.filter (· ≠ "")).getD (settings.logLevel.getD "")
  (logLevels.lookup (String.ofList (given.toList.map upperAscii))).getD 30

end Settings

end SmallLisp
