import SmallLisp.Dialogue
import SmallLisp.Settings

namespace SmallLisp.CommandLine

open Text

inductive Flag
  | help
  | strictBrackets
  | logLevel
  deriving DecidableEq

def flagNames : List (String × Flag) :=
  [("--help", .help), ("--strict-brackets", .strictBrackets), ("--log-level", .logLevel)]

/-- A word of the command line. -/
inductive Word
  | plain (text : String)
  /-- An option, with what follows an equals sign in the same word. -/
  | option (flag : Flag) (value : Option String)
  /-- What looks like an option and is none. -/
  | unknown
  /-- The start of more than one option. -/
  | ambiguous
  /-- Two dashes: all words after it are plain. -/
  | terminator
  deriving DecidableEq

/-- Whether a word is a dash and a decimal number, which is no option. A newline may follow it. -/
def isNegativeNumber (text : List Char) : Bool :=
  let isDecimal (c : Char) : Bool := (decimalDigit? c).isSome
  match text with
  | '-' :: number =>
    let number := if number.getLast? = some '\n' then number.dropLast else number
    let fraction := number.dropWhile isDecimal
    match fraction with
    | [] => number ≠ []
    | '.' :: digits => digits ≠ [] && digits.all isDecimal
    | _ => false
  | _ => false

/-- A word that starts with a dash and names no option. -/
def wordWithDash (text : List Char) : Word :=
  if isNegativeNumber text || text.contains ' ' then .plain (String.ofList text) else .unknown

def longWord (text : List Char) : Word :=
  let name := text.takeWhile (· ≠ '=')
  let value := ((text.dropWhile (· ≠ '=')).tail?).map String.ofList
  match flagNames.filter fun entry => name.isPrefixOf entry.1.toList with
  | [entry] => .option entry.2 value
  | [] => wordWithDash text
  | _ => .ambiguous

/-- What the short option for help is with more characters in its word. It is the only short option,
so no other can follow it there, but it can be repeated. -/
def shortHelp (rest : List Char) : Word :=
  .option .help (if rest.all (· = 'h') then none else some (String.ofList rest))

/-- What a word of the command line is. -/
def classify (text : List Char) : Word :=
  match text with
  | ['-', '-'] => .terminator
  | '-' :: '-' :: _ => longWord text
  | '-' :: 'h' :: rest => shortHelp rest
  | ['-'] => .plain "-"
  | '-' :: _ => wordWithDash text
  | _ => .plain (String.ofList text)

/-- The words of a command line. -/
def words : List String → List Word
  | [] => []
  | text :: texts =>
    match classify text.toList with
    | .terminator => .terminator :: texts.map .plain
    | word => word :: words texts

structure Invocation where
  expression : Option String := none
  strict : Bool := false
  logLevel : Option String := none
  deriving DecidableEq

/-- What a command line comes to. -/
inductive Request
  | run (invocation : Invocation)
  | help
  | refused
  deriving DecidableEq

/-- The level that an equals sign gives. Two dashes alone end options even there, and give none. -/
def assignedLevel (value : String) : String :=
  if value = "--" then "" else value

/-- Takes the words one by one. A word that has no use is refused at the end, so that the request
for help is heard before. -/
def take (invocation : Invocation) (useless : Bool) : List Word → Request
  | [] => if useless then .refused else .run invocation
  | .plain text :: rest =>
    if invocation.expression.isNone then
      let invocation := { invocation with expression := some text }
      match rest with
      | .terminator :: others => take invocation useless others
      | others => take invocation useless others
    else take invocation true rest
  | .terminator :: rest =>
    match invocation.expression, rest with
    | none, .plain text :: others =>
      take { invocation with expression := some text } useless others
    | none, others => take invocation useless others
    | some _, others => take invocation true others
  | .option .help none :: _ => .help
  | .option .help (some _) :: _ => .refused
  | .option .strictBrackets none :: rest => take { invocation with strict := true } useless rest
  | .option .strictBrackets (some _) :: _ => .refused
  | .option .logLevel (some level) :: rest =>
    take { invocation with logLevel := some (assignedLevel level) } useless rest
  | .option .logLevel none :: .plain level :: rest =>
    take { invocation with logLevel := some level } useless rest
  | .option .logLevel none :: _ => .refused
  | .unknown :: rest => take invocation true rest
  | .ambiguous :: _ => .refused

/-- The request of a command line. -/
def request (arguments : List String) : Request :=
  let words := words arguments
  if words.contains .ambiguous then .refused else take {} false words

/-- The lines of an input. Only newlines end them; what follows the last one is a line unless it is
empty. -/
def inputLines : List Char → List (List Char)
  | [] => []
  | c :: rest =>
    if c = '\n' then [] :: inputLines rest
    else match inputLines rest with
      | [] => [[c]]
      | line :: others => (c :: line) :: others

def helpText : String :=
  "usage: small-lisp [-h] [--strict-brackets] [--log-level LOG_LEVEL] [expression]\n"

structure Report where
  exitCode : Nat
  shown : String
  logLevel : Nat
  deriving DecidableEq

/-- The level of logging until the command line is understood. -/
def initialLogLevel : Nat := 30

def Invocation.interpreter (settings : Settings) (invocation : Invocation) : Interpreter :=
  { strict := invocation.strict || settings.strict }

def run (settings : Settings) (arguments : List String) (input : String) : Outcome Report := do
  match request arguments with
  | .refused => return { exitCode := 2, shown := "", logLevel := initialLogLevel }
  | .help => return { exitCode := 0, shown := helpText, logLevel := initialLogLevel }
  | .run invocation =>
    let interpreter := invocation.interpreter settings
    let logLevel := settings.logLevelOr invocation.logLevel
    match invocation.expression with
    | some expression =>
      return { exitCode := 0, shown := (← interpreter.respond expression) ++ "\n", logLevel }
    | none =>
      let lines := (inputLines input.toList).map String.ofList
      let events ← Dialogue.run interpreter settings.promptText settings.quitCommand lines
      return { exitCode := 0, shown := Dialogue.shown events, logLevel }

end SmallLisp.CommandLine
