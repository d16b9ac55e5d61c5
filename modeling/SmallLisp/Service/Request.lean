import SmallLisp.Interpreter
import SmallLisp.Json.Reader
import SmallLisp.Json.Writer

namespace SmallLisp.Service

open Text

/-- A server: the interpreter it asks, and what the decoder of its host says of bytes that it cannot
read as a value. -/
structure Server where
  interpreter : Interpreter
  explain : List UInt8 → String

/-- The answer to a request: the text of a value, or what went wrong. -/
structure Response where
  ok : Bool
  text : List CodePoint
  deriving DecidableEq

namespace Response

/-- The answer that a request cannot be met. -/
def error (message : String) : Response :=
  { ok := false, text := CodePoint.ofText message.toList }

def toJson (response : Response) : Json :=
  .object
    [(CodePoint.ofText "ok".toList, .boolean response.ok),
     (CodePoint.ofText (if response.ok then "result" else "error").toList, .string response.text)]

def line (response : Response) : String :=
  String.ofList (response.toJson.encode ++ ['\n'])

end Response

def answerText (interpreter : Interpreter) (code : List Char) : Outcome (Bool × List Char) :=
  match interpreter.answer (String.ofList code) with
  | .ok text => .ok (true, text.toList)
  | .error (.failure failure) => .ok (false, failure.message.toList)
  | .error fault => .error fault

/-- The answer to code. Ordinary text stands in for code in which surrogates stand alone. -/
def answer (interpreter : Interpreter) (code : List CodePoint) : Outcome Response :=
  match CodePoint.toText? code with
  | some text => do
    let (ok, shown) ← answerText interpreter text
    return { ok, text := CodePoint.ofText shown }
  | none => do
    let codes := StandIn.replaced code
    let (ok, shown) ← answerText interpreter (StandIn.encode codes code)
    return { ok, text := StandIn.decode codes shown }

def answerObject (interpreter : Interpreter) (members : List (List CodePoint × Json)) :
    Outcome Response :=
  let command := (Json.member? "cmd" members).getD .null
  match command with
  | .string name =>
    if name = CodePoint.ofText "eval".toList then
      match (Json.member? "code" members).getD (.string []) with
      | .string code => answer interpreter code
      | _ => .ok (.error "Invalid request: code must be a string")
    else .ok { ok := false, text := CodePoint.ofText "Unknown cmd: ".toList ++ name }
  | other =>
    .ok { ok := false, text := CodePoint.ofText ("Unknown cmd: ".toList ++ other.describe) }

/-- The answer to a request. A request that goes deeper than the interpreter does has none. -/
def handle (server : Server) (request : List UInt8) : Outcome Response :=
  match String.fromUTF8? (ByteArray.mk request.toArray) with
  | none => .ok (.error ("Invalid request: " ++ server.explain request))
  | some text =>
    match Json.decode server.interpreter.levels text.toList with
    | .error .malformed => .ok (.error ("Invalid request: " ++ server.explain request))
    | .error .tooDeep => .fail .tooDeep
    | .ok (.object members) => answerObject server.interpreter members
    | .ok _ => .ok (.error "Invalid request: request must be a JSON object")

end SmallLisp.Service
